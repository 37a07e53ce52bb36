import TriLang.Proofs.Parsing.Acceptance
import TriLang.Proofs.Scoping.Identification
import TriLang.Proofs.Typing.Commands

/-! # The checker accepts the well-typed programs

A program that is read and resolved without errors is accepted by the checker just in case it is well typed,
and then every expression has the type recorded that the rules give it. Checking starts from the types of
the standard constants, which agree with the rules (`agrees_builtinTypes`). -/
namespace TriLang
set_option autoImplicit false

/-! ## The types of the standard constants -/

/-- Every symbol stands at its number, and the constants that come with a type are those of the standard
environment. -/
structure SymbolTable.Ordered (t : SymbolTable) : Prop where
  numbered : ∀ k symbol, t.get? k = some symbol → symbol.id = k
  builtin : ∀ k symbol type, t.get? k = some symbol → symbol.kind = .const (some type) →
    type.isPlain = true ∧ symbol.decl? = none

theorem initial_size : Resolving.initial.tables.symbols.size = 26 := by decide +kernel

theorem lt_of_get?_initial {k : Nat} {symbol : Symbol}
    (h : Resolving.initial.tables.symbols.get? k = some symbol) : k < 26 := by
  obtain ⟨hk, -⟩ := Array.getElem?_eq_some_iff.1 h
  exact initial_size ▸ hk

theorem SymbolTable.ordered_initial : Resolving.initial.tables.symbols.Ordered := by
  have hentries : ∀ k < 26, ∀ symbol ∈ Resolving.initial.tables.symbols.get? k, symbol.id = k ∧
      symbol.decl? = none ∧ (symbol.kind = .unknown ∨ symbol.kind.isPlain = true) := by
    decide +kernel
  constructor
  · intro k symbol hsymbol
    exact (hentries k (lt_of_get?_initial hsymbol) symbol hsymbol).1
  · intro k symbol type hsymbol hkind
    obtain ⟨-, hdecl, hplain⟩ := hentries k (lt_of_get?_initial hsymbol) symbol hsymbol
    rw [hkind] at hplain
    exact ⟨hplain.resolve_left (by simp), hdecl⟩

theorem SymbolTable.Ordered.introduce {t : SymbolTable} (h : t.Ordered) {declared : List Declared}
    (hkind : ∀ d ∈ declared, d.kind = .const none ∨ d.kind = .var) : (t.introduce declared).Ordered := by
  constructor
  · intro k symbol hsymbol
    rcases get?_introduce hsymbol with hold | ⟨d, -, rfl⟩
    · exact h.numbered k symbol hold
    · rfl
  · intro k symbol type hsymbol hbuiltin
    rcases get?_introduce hsymbol with hold | ⟨d, hd, rfl⟩
    · exact h.builtin k symbol type hold hbuiltin
    · rcases hkind d hd with hkind | hkind <;> simp [hkind] at hbuiltin

theorem ordered_resolve (p : Program) : (resolve p).symbols.Ordered := by
  rw [resolve, Command.resolve_symbols]
  exact SymbolTable.ordered_initial.introduce fun _ => Command.kind_of_declared

/-- The type of a standard constant is recorded at its number. -/
def recordBuiltin (types : Std.TreeMap Nat Ty) (symbol : Symbol) : Std.TreeMap Nat Ty :=
  match symbol.kind with
  | .const (some type) => types.insert symbol.id type
  | _ => types

theorem mem_of_foldl_recordBuiltin {symbols : List Symbol} {types : Std.TreeMap Nat Ty} {k : Nat}
    {type : Ty} (h : (symbols.foldl recordBuiltin types)[k]? = some type) :
    types[k]? = some type ∨ ∃ symbol ∈ symbols, symbol.id = k ∧ symbol.kind = .const (some type) := by
  induction symbols generalizing types with
  | nil => exact .inl h
  | cons symbol more ih =>
    rcases ih h with hfirst | ⟨symbol', hmem, hsymbol'⟩
    · unfold recordBuiltin at hfirst
      split at hfirst
      · next builtin hkind =>
        rw [Std.TreeMap.getElem?_insert] at hfirst
        split at hfirst
        · next hid =>
          have htype : builtin = type := Option.some.inj hfirst
          exact .inr ⟨symbol, by simp, by simpa using hid, by rw [hkind, htype]⟩
        · exact .inl hfirst
      · exact .inl hfirst
    · exact .inr ⟨symbol', List.mem_cons_of_mem _ hmem, hsymbol'⟩

theorem foldl_recordBuiltin {symbols : List Symbol} {types : Std.TreeMap Nat Ty} {k : Nat} {type : Ty}
    (hsame : ∀ symbol ∈ symbols, symbol.id = k → symbol.kind = .const (some type))
    (hmem : types[k]? = some type ∨ ∃ symbol ∈ symbols, symbol.id = k) :
    (symbols.foldl recordBuiltin types)[k]? = some type := by
  induction symbols generalizing types with
  | nil => simpa using hmem
  | cons symbol more ih =>
    refine ih (fun symbol' hsymbol' => hsame symbol' (List.mem_cons_of_mem _ hsymbol')) ?_
    by_cases hid : symbol.id = k
    · left
      simp [recordBuiltin, hsame symbol (by simp) hid, hid]
    · rcases hmem with hold | ⟨symbol', hsymbol', hid'⟩
      · left
        unfold recordBuiltin
        split
        · simpa [Std.TreeMap.getElem?_insert, hid] using hold
        · exact hold
      · rcases List.mem_cons.1 hsymbol' with rfl | hmore
        · exact absurd hid' hid
        · exact .inr ⟨symbol', hmore, hid'⟩

theorem SymbolTable.mem_toList {t : SymbolTable} {symbol : Symbol} :
    symbol ∈ t.toList ↔ ∃ k, t.get? k = some symbol := by
  simp [toList, get?, Array.mem_iff_getElem?]

theorem SymbolTable.Ordered.agrees_builtinTypes {r : Resolution} (h : r.symbols.Ordered)
    (decls : List Decl) : Typing.Agrees ⟨∅, builtinTypes r.symbols, []⟩ r decls [] := by
  have hid : ∀ symbol ∈ r.symbols.toList, r.symbols.get? symbol.id = some symbol := by
    intro symbol hsymbol
    obtain ⟨k, hk⟩ := mem_toList.1 hsymbol
    rw [h.numbered k symbol hk, hk]
  refine ⟨rfl, ?_, by simp, ?_⟩
  · intro k symbol type hsymbol hkind
    refine foldl_recordBuiltin (fun symbol' hmem hk => ?_) (.inr ⟨symbol, mem_toList.2 ⟨k, hsymbol⟩,
      h.numbered k symbol hsymbol⟩)
    have hsame := hid symbol' hmem
    rw [hk, hsymbol] at hsame
    rw [← Option.some.inj hsame, hkind]
  · intro k symbol type hsymbol htype
    rcases mem_of_foldl_recordBuiltin htype with hnone | ⟨symbol', hmem, hk, hkind⟩
    · simp at hnone
    · have hsame := hid symbol' hmem
      rw [hk, hsymbol] at hsame
      obtain rfl := Option.some.inj hsame
      obtain ⟨hplain, hdecl⟩ := h.builtin k symbol type hsymbol hkind
      exact ⟨hplain, .builtin hkind, by simp [hdecl]⟩

/-! ## Resolved programs -/

/-- Without errors every occurrence is known. -/
theorem allStand_of_resolve {p : Program} (h : p.command.ids.Nodup) (hresolve : (resolve p).errors = []) :
    AllStand (resolve p) (p.command.occurrences []) := by
  intro o ho
  obtain ⟨⟨k, hk, hdenotes⟩, hreported⟩ := resolve_settled p h o ho
  cases hdenotes with
  | known hknown => exact hknown.stands hk
  | unknown hd he => simpa [hresolve] using hreported hd he

theorem Decl.map_singles (d : Decl) : d.singles.map (·.mark.id) = declaredNodes d.declared := by
  induction d with
  | const m name value => rfl
  | var m name type => rfl
  | seq m first second ihf ihs =>
    rw [singles, declared, List.map_append, declaredNodes_append, ihf, ihs]
  | error m => rfl

theorem Command.map_declarations (c : Command) :
    c.declarations.map (·.mark.id) = declaredNodes c.declared := by
  induction c with
  | cond m c thenBranch elseBranch iht ihe =>
    rw [declarations, declared, List.map_append, declaredNodes_append, iht, ihe]
  | whileDo m c body rest ihb ihr =>
    rw [declarations, declared, List.map_append, declaredNodes_append, ihb, ihr]
  | doWhile m body c ih => exact ih
  | letIn m decl body rest ihb ihr =>
    simp only [declarations, declared, List.map_append, declaredNodes_append, ihb, ihr,
      Decl.map_singles]
  | seq m first second ihf ihs =>
    rw [declarations, declared, List.map_append, declaredNodes_append, ihf, ihs]
  | _ => rfl

theorem ready_of_resolve {p : Program} (hfree : p.command.ErrorFree) (hids : p.command.ids.Nodup)
    (hresolve : (resolve p).errors = []) :
    p.command.Ready (resolve p) p.command.declarations [] :=
  ⟨hfree, hids, allStand_of_resolve hids hresolve, fun _ => id, p.command.resolve_registers hids _⟩

theorem checks_of_resolve {p : Program} (hfree : p.command.ErrorFree) (hids : p.command.ids.Nodup)
    (hresolve : (resolve p).errors = []) :
    Checks (resolve p) p.command.declarations (p.command.check (resolve p)) p.command.ids []
      (declaredNodes p.command.declared) (p.command.WellTyped (resolve p) p.command.declarations)
      p.command.expressions := by
  have hnew : (declaredNodes p.command.declared).Nodup := by
    rw [← Command.map_declarations]
    exact hids.sublist p.command.sublist_ids
  exact p.command.checks (Command.apart_declarations hids) (ready_of_resolve hfree hids hresolve)
    surrounded_nil hnew

theorem Ty.cases_of_isPlain {type : Ty} (h : type.isPlain = true) :
    type = .boolean ∨ type = .char ∨ type = .integer := by
  cases type <;> simp_all [isPlain]

/-- A text that is read without an error, and whose names are resolved without an error, is accepted by the
checker just in case it is well typed. If it is, the recorded type of every expression is the only one that
the rules give it, and one that values have. -/
theorem typecheck_accepts_wellTyped (text : List Char) (hparse : (parseText text).errors = [])
    (hresolve : (resolve (parseText text).program).errors = []) :
    let p := (parseText text).program
    let r := resolve p
    let decls := p.command.declarations
    ((typecheck r p).errors = [] ↔ p.command.WellTyped r decls) ∧
      ((typecheck r p).errors = [] → ∀ e ∈ p.command.expressions, ∃ type,
        (typecheck r p).nodeTypes[e.mark.id]? = some type ∧
          (∀ type', HasType r decls e type' ↔ type' = type) ∧
          (type = .boolean ∨ type = .char ∨ type = .integer)) := by
  intro p r decls
  obtain ⟨hids, hfree⟩ := nodup_ids_of_parse hparse
  have hchecks := checks_of_resolve hfree hids hresolve
  have hstart := (ordered_resolve p).agrees_builtinTypes decls
  refine ⟨⟨fun h => (hchecks.sound _ hstart h).1, hchecks.complete _ hstart⟩, fun h e he => ?_⟩
  obtain ⟨type, hnode, htype, hplain⟩ := (hchecks.sound _ hstart h).2.2 e he
  refine ⟨type, hnode, fun type' => ⟨fun h' => ?_, fun h' => h' ▸ htype⟩, Ty.cases_of_isPlain hplain⟩
  exact h'.unique (Command.apart_declarations hids) htype

/-- A constant whose value is computed, a variable, and an operator that compares operands of any type. -/
theorem typecheck_accepts_wellTyped_let :
    let text := ("let const a ~ 'x'; var n Integer in" ++
      " if a \\= 'y' then n = n + 1 else putint(n) endlet").toList
    let p := (parseText text).program
    (parseText text).errors = [] ∧ (resolve p).errors = [] ∧
      p.command.WellTyped (resolve p) p.command.declarations := by
  intro text p
  have hparse : (parseText text).errors = [] := by decide +kernel
  have hresolve : (resolve p).errors = [] := by decide +kernel
  have haccepted : (typecheck (resolve p) p).errors = [] := by decide +kernel
  exact ⟨hparse, hresolve, (typecheck_accepts_wellTyped text hparse hresolve).1.1 haccepted⟩

end TriLang
