import TriLang.Proofs.Scoping.Settling
import TriLang.Syntax.Parser

/-! # Identification is static scoping

At the start one scope is open, which holds the standard environment, so that every name denotes there what
the scope binds it to. From there on the walk settles every applied occurrence of the program. -/
namespace TriLang
set_option autoImplicit false

/-! ## The standard environment -/

/-- One scope is open, and it holds exactly the given entries of the standard environment. -/
def Resolving.Holds (s : Resolving) (entries : List (String × StandardEntity)) : Prop :=
  ∃ frame, s.scopes.scopes = [frame] ∧
    (∀ name symbol, frame.lookup name = some symbol → ∃ entity, entries.lookup name = some entity ∧
      s.tables.symbols.get? symbol = some ⟨symbol, name, entity.kind, none, none⟩) ∧
    ∀ name, frame.lookup name = none → entries.lookup name = none

theorem Resolving.Holds.addBuiltin {s : Resolving} {entries : List (String × StandardEntity)}
    (h : s.Holds entries) (name : String) (entity : StandardEntity)
    (hname : entries.lookup name = none) :
    (s.addBuiltin name entity.kind).Holds (entries ++ [(name, entity)]) := by
  obtain ⟨frame, hscopes, hsome, hnone⟩ := h
  have hfree : frame.lookup name = none := by
    cases hlookup : frame.lookup name with
    | none => rfl
    | some symbol =>
      obtain ⟨entity', hentity, -⟩ := hsome name symbol hlookup
      simp [hname] at hentity
  refine ⟨(name, s.tables.symbols.size) :: frame, ?_, fun x symbol hx => ?_, fun x hx => ?_⟩
  · simp [Resolving.addBuiltin, ScopeStack.enter, hscopes, hfree]
  · rw [List.lookup_cons] at hx
    by_cases hxname : x = name
    · subst hxname
      obtain rfl : s.tables.symbols.size = symbol := by simpa using hx
      exact ⟨entity, by simp [List.lookup_append, hname], SymbolTable.get?_insert_size _ _ _ _ _⟩
    · have hne : (x == name) = false := by simpa using hxname
      obtain ⟨entity', hentity, hentry⟩ := hsome x symbol (by simpa [hne] using hx)
      exact ⟨entity', by simp [List.lookup_append, hentity],
        SymbolTable.get?_insert_of_some hentry _ _ _ _⟩
  · rw [List.lookup_cons] at hx
    by_cases hxname : x = name
    · simp [hxname] at hx
    · have hne : (x == name) = false := by simpa using hxname
      have hx' : frame.lookup x = none := by simpa [hne] using hx
      simp [List.lookup_append, hnone x hx', hxname]

theorem Resolving.holds_foldl (more entries : List (String × StandardEntity)) (s : Resolving)
    (h : s.Holds entries) (hnodup : ((entries ++ more).map Prod.fst).Nodup) :
    (more.foldl (fun s (name, entity) => s.addBuiltin name entity.kind) s).Holds
      (entries ++ more) := by
  induction more generalizing entries s with
  | nil => simpa using h
  | cons e more ih =>
    obtain ⟨name, entity⟩ := e
    have hname : entries.lookup name = none := by
      rw [List.map_append, List.nodup_append] at hnodup
      rw [List.lookup_eq_none_iff]
      intro p hp
      simpa using Ne.symm (hnodup.2.2 p.1 (List.mem_map_of_mem hp) name (by simp))
    have hstep := ih (entries ++ [(name, entity)]) _ (h.addBuiltin name entity hname)
      (by simpa using hnodup)
    simpa using hstep

theorem Resolving.initial_reads : Resolving.initial.Reads [] := by
  have hempty : Resolving.Holds ⟨ScopeStack.empty.openScope, ⟨.initial, ∅, ∅, []⟩⟩ [] :=
    ⟨[], rfl, by simp, by simp⟩
  obtain ⟨frame, hscopes, hsome, hnone⟩ := holds_foldl standardEnvironment [] _ hempty (by decide)
  have hretrieve : ∀ name, Resolving.initial.scopes.retrieve? name = frame.lookup name := by
    intro name
    rw [ScopeStack.retrieve?, show Resolving.initial.scopes.scopes = [frame] from hscopes]
    cases h : frame.lookup name <;> simp [h]
  refine ⟨fun name symbol hname => ?_, fun name hname => ?_⟩
  · obtain ⟨entity, hentity, hentry⟩ := hsome name symbol (hretrieve name ▸ hname)
    exact .standard rfl hentity hentry
  · exact ⟨rfl, hnone name (hretrieve name ▸ hname)⟩

/-! ## Whole programs -/

theorem resolve_settled (p : Program) (h : p.command.ids.Nodup) :
    ∀ o ∈ p.command.occurrences [], o.Settled (resolve p) := by
  refine (p.command.settles h []).settled _ Resolving.initial_reads ?_
  intro d hd
  simp [Env.Visible] at hd

/-- Every applied occurrence is bound to what it denotes by static scoping. The scope of a `while` makes
no difference to anything that is found out, and a command leaves the scope stack as it was. -/
theorem resolve_denotes (p : Program) (h : p.command.ids.Nodup) :
    (∀ o ∈ p.command.occurrences [], ∃ symbol,
      (resolve p).resolutions[o.mark.id]? = some symbol ∧
        Denotes (resolve p) o.env o.name symbol) ∧
    (∀ (m : Mark) (c : Expr) (body rest : Command) (s : Resolving),
      (Command.whileDo m c body rest).resolve s = rest.resolve (body.resolve (c.resolve s))) ∧
    (∀ (c : Command) (s : Resolving), (c.resolve s).scopes = s.scopes) := by
  refine ⟨fun o ho => (resolve_settled p h o ho).bound, ?_, ?_⟩
  · exact Command.resolve_whileDo
  · exact Command.resolve_scopes

/-- A constant whose name is declared again in its own list and hidden in a list further in. -/
theorem resolve_denotes_nested :
    let p := (parseText ("let const a ~ 1; var a Integer in let const a ~ a in while a < b do wend;" ++
      " put(a) endlet pass endlet a = a").toList).program
    p.command.ids.Nodup ∧ ∀ o ∈ p.command.occurrences [], ∃ symbol,
      (resolve p).resolutions[o.mark.id]? = some symbol ∧
        Denotes (resolve p) o.env o.name symbol := by
  intro p
  have hids : p.command.ids.Nodup := by decide +kernel
  exact ⟨hids, (resolve_denotes p hids).1⟩

end TriLang
