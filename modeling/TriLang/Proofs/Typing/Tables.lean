import TriLang.Proofs.Scoping.Tables
import TriLang.Proofs.Typing.Entries
import TriLang.Proofs.Typing.Parts

/-! # The tables of types

Whatever errors a program has, the checker gives a type to each of its expressions and to each symbol that it
declares, and it changes none that it has given (`typecheck_complete`). That holds because every entry is
new when it is written: the parser gives no number twice, resolution gives each declaration a symbol of its
own, and the checker starts with the types of the standard constants alone. -/
namespace TriLang
set_option autoImplicit false

/-! ## The standard constants -/

/-- The constants of the standard environment: number, name and type. -/
def standardConstants : List (Nat × String × Ty) :=
  (standardEnvironment.zipIdx 1).filterMap fun ((name, entity), k) =>
    match entity with
    | .constant type => some (k, name, type)
    | _ => none

example : standardConstants =
    [(4, "false", .boolean), (5, "true", .boolean), (6, "maxint", .integer)] := by decide

/-- A symbol that comes with a type is one of the standard constants. -/
theorem mem_standardConstants {k : Nat} {symbol : Symbol} {type : Ty}
    (h : Resolving.initial.tables.symbols.get? k = some symbol)
    (hkind : symbol.kind = .const (some type)) : (k, symbol.name, type) ∈ standardConstants := by
  have hall : ∀ k < 26, ∀ symbol ∈ Resolving.initial.tables.symbols.get? k,
      ∀ type ∈ [Ty.boolean, .char, .integer, .any, .error],
        symbol.kind = .const (some type) → (k, symbol.name, type) ∈ standardConstants := by
    decide +kernel
  exact hall k (lt_of_get?_initial h) symbol h type (by cases type <;> simp) hkind

theorem get?_standardConstants : ∀ entry ∈ standardConstants,
    Resolving.initial.tables.symbols.get? entry.1 =
      some ⟨entry.1, entry.2.1, .const (some entry.2.2), none, none⟩ := by decide +kernel

theorem SymbolTable.Ordered.getElem?_builtinTypes {t : SymbolTable} (h : t.Ordered) {k : Nat}
    {type : Ty} : (builtinTypes t)[k]? = some type ↔
      ∃ symbol, t.get? k = some symbol ∧ symbol.kind = .const (some type) := by
  constructor
  · intro htype
    rcases mem_of_foldl_recordBuiltin htype with hnone | ⟨symbol, hmem, hk, hkind⟩
    · simp at hnone
    · obtain ⟨n, hn⟩ := mem_toList.1 hmem
      have hsame : n = k := (h.numbered n symbol hn).symm.trans hk
      exact ⟨symbol, hsame ▸ hn, hkind⟩
  · rintro ⟨symbol, hsymbol, hkind⟩
    refine foldl_recordBuiltin (fun other hmem hk => ?_)
      (.inr ⟨symbol, mem_toList.2 ⟨k, hsymbol⟩, h.numbered k symbol hsymbol⟩)
    obtain ⟨n, hn⟩ := mem_toList.1 hmem
    have hsame : n = k := (h.numbered n other hn).symm.trans hk
    rw [hsame, hsymbol] at hn
    rw [← Option.some.inj hn, hkind]

section
variable {p : Program}

/-- The types that checking a program starts from are those of the standard constants. -/
theorem getElem?_builtinTypes_resolve {k : Nat} {type : Ty} :
    (builtinTypes (resolve p).symbols)[k]? = some type ↔ ∃ name, (k, name, type) ∈ standardConstants := by
  rw [(ordered_resolve p).getElem?_builtinTypes]
  have hsymbols : (resolve p).symbols =
      Resolving.initial.tables.symbols.introduce p.command.declared := p.command.resolve_symbols _
  constructor
  · rintro ⟨symbol, hsymbol, hkind⟩
    rw [hsymbols] at hsymbol
    rcases SymbolTable.get?_introduce hsymbol with hold | ⟨d, hd, rfl⟩
    · exact ⟨symbol.name, mem_standardConstants hold hkind⟩
    · rcases Command.kind_of_declared hd with hdecl | hdecl <;> simp [hdecl] at hkind
  · rintro ⟨name, hmem⟩
    rw [hsymbols]
    have hentry := get?_standardConstants _ hmem
    exact ⟨_, SymbolTable.get?_introduce_of_some hentry _, rfl⟩

theorem mem_builtinTypes_resolve {k : Nat} : k ∈ builtinTypes (resolve p).symbols ↔
    ∃ entry ∈ standardConstants, entry.1 = k := by
  rw [Std.TreeMap.mem_iff_isSome_getElem?, Option.isSome_iff_exists]
  constructor
  · rintro ⟨type, htype⟩
    obtain ⟨name, hmem⟩ := getElem?_builtinTypes_resolve.1 htype
    exact ⟨_, hmem, rfl⟩
  · rintro ⟨⟨k, name, type⟩, hmem, rfl⟩
    exact ⟨type, getElem?_builtinTypes_resolve.2 ⟨name, hmem⟩⟩

/-! ## The symbols that a program declares -/

/-- A declaration has a symbol of its own. -/
theorem exists_symbol_of_declaration (hids : p.command.ids.Nodup) {d : Decl}
    (hd : d ∈ p.command.declarations) : ∃ symbol ∈ (resolve p).symbols.declared,
      symbol.decl? = some d.mark.id ∧ (resolve p).declarations[d.mark.id]? = some symbol.id ∧
      (resolve p).symbols.get? symbol.id = some symbol := by
  have hnode : d.mark.id ∈ declaredNodes p.command.declared := by
    rw [← Command.map_declarations]
    exact List.mem_map_of_mem hd
  obtain ⟨x, hx, hxid⟩ := List.mem_map.1 hnode
  obtain ⟨symbol, hsymbol, hmade⟩ := exists_of_forall₂ (resolve_declared p).flip x hx
  obtain ⟨hleads, hentry⟩ := resolve_leads hids hx hsymbol hmade
  refine ⟨symbol, hsymbol, ?_, hxid ▸ hleads, hentry⟩
  rw [hmade, ← hxid]
  rfl

theorem exists_declaration_of_symbol (hids : p.command.ids.Nodup) {symbol : Symbol}
    (hsymbol : symbol ∈ (resolve p).symbols.declared) : ∃ d ∈ p.command.declarations,
      (resolve p).declarations[d.mark.id]? = some symbol.id := by
  obtain ⟨x, hx, hmade⟩ := exists_of_forall₂ (resolve_declared p) symbol hsymbol
  have hnode : x.node ∈ p.command.declarations.map (·.mark.id) := by
    rw [Command.map_declarations]
    exact List.mem_map_of_mem hx
  obtain ⟨d, hd, hdid⟩ := List.mem_map.1 hnode
  refine ⟨d, hd, ?_⟩
  rw [hdid]
  exact (resolve_leads hids hx hsymbol hmade).1

/-! ## The start -/

/-- The state in which a program is checked. -/
def Typing.start (r : Resolution) : Typing := ⟨∅, builtinTypes r.symbols, []⟩

theorem typecheck_walks (r : Resolution) (p : Program) :
    Typing.Walks r p.command.expressions p.command.declarations (.start r)
      (p.command.states r (.start r)) (typecheck r p) := p.command.check_walks (.start r)

theorem fresh_start (hids : p.command.ids.Nodup) :
    Typing.Fresh (resolve p) p.command.expressions p.command.declarations (.start (resolve p)) where
  nodes e _ := Std.TreeMap.not_mem_emptyc
  symbols d hd k hk hmem := by
    obtain ⟨symbol, -, hdecl, hsymbol, hentry⟩ := exists_symbol_of_declaration hids hd
    obtain rfl := Option.some.inj (hsymbol.symm.trans hk)
    obtain ⟨type, htype⟩ := Option.isSome_iff_exists.1 (Std.TreeMap.mem_iff_isSome_getElem?.1 hmem)
    obtain ⟨symbol', hentry', hkind⟩ := (ordered_resolve p).getElem?_builtinTypes.1 htype
    obtain rfl := Option.some.inj (hentry.symm.trans hentry')
    simp [((ordered_resolve p).builtin _ _ _ hentry hkind).2] at hdecl
  nodes_apart := List.pairwise_map.1 (hids.sublist (Node.sublist_expressions (.command p.command)))
  symbols_apart := by
    have hapart : p.command.declarations.Pairwise fun d d' => d.mark.id ≠ d'.mark.id :=
      List.pairwise_map.1 (hids.sublist p.command.sublist_ids)
    refine (List.Pairwise.and_mem.1 hapart).imp ?_
    rintro d d' ⟨hd, hd', hne⟩ k hk hk'
    obtain ⟨symbol, -, hdecl, hsymbol, hentry⟩ := exists_symbol_of_declaration hids hd
    obtain ⟨symbol', -, hdecl', hsymbol', hentry'⟩ := exists_symbol_of_declaration hids hd'
    have hid : symbol.id = symbol'.id :=
      Option.some.inj ((hsymbol.symm.trans hk).trans (hk'.symm.trans hsymbol'))
    rw [hid] at hentry
    obtain rfl := Option.some.inj (hentry.symm.trans hentry')
    exact hne (Option.some.inj (hdecl.symm.trans hdecl'))

end

/-! ## Whole programs -/

/-- The tables give types to what there is in the tree of a command, and to nothing else. -/
structure Typing.Complete (t : Typing) (r : Resolution) (c : Command) : Prop where
  expressions : ∀ id, id ∈ t.nodeTypes ↔ ∃ e, (Node.command c).Contains (.expr e) ∧ e.mark.id = id
  /-- The symbols that have types are the standard constants and what the program declares. -/
  symbols : ∀ k, k ∈ t.symbolTypes ↔ (∃ entry ∈ standardConstants, entry.1 = k) ∨
    ∃ symbol ∈ r.symbols.declared, symbol.id = k
  standard : ∀ k name type, (k, name, type) ∈ standardConstants →
    r.symbols.get? k = some ⟨k, name, .const (some type), none, none⟩ ∧
      t.symbolTypes[k]? = some type
  /-- A constant has the type of its value. -/
  of_const : ∀ m name value, (Node.command c).Contains (.decl (.const m name value)) →
    ∃ k type, r.declarations[m.id]? = some k ∧ t.symbolTypes[k]? = some type ∧
      t.nodeTypes[value.mark.id]? = some type
  /-- A variable has the type that its denoter names, or else `error`. -/
  of_var : ∀ m name denoter, (Node.command c).Contains (.decl (.var m name denoter)) →
    ∃ k, r.declarations[m.id]? = some k ∧ t.symbolTypes[k]? = some (r.typeOf denoter)

/-- Whatever resolution the checker is given, it gives types to just the expressions of the program. -/
theorem mem_nodeTypes_typecheck (r : Resolution) (p : Program) (id : Nat) :
    id ∈ (typecheck r p).nodeTypes ↔
      ∃ e, (Node.command p.command).Contains (.expr e) ∧ e.mark.id = id := by
  have hempty : id ∉ (Typing.start r).nodeTypes := Std.TreeMap.not_mem_emptyc
  rw [(typecheck_walks r p).mem_nodeTypes, or_iff_right hempty]
  simp only [← Node.mem_expressions]
  rfl

theorem complete_of_nodup {p : Program} (hids : p.command.ids.Nodup) :
    (typecheck (resolve p) p).Complete (resolve p) p.command := by
  have hwalks := typecheck_walks (resolve p) p
  have hfresh := fresh_start hids
  have hkeeps := hwalks.keeps hfresh
  have htyped := hwalks.typed hfresh
  constructor
  case expressions => exact mem_nodeTypes_typecheck _ p
  case symbols =>
    intro k
    rw [hwalks.mem_symbolTypes]
    refine or_congr mem_builtinTypes_resolve ⟨fun ⟨d, hd, hk⟩ => ?_, fun ⟨symbol, hsymbol, hk⟩ => ?_⟩
    · obtain ⟨symbol, hsymbol, -, hleads, -⟩ := exists_symbol_of_declaration hids hd
      exact ⟨symbol, hsymbol, Option.some.inj (hleads.symm.trans hk)⟩
    · obtain ⟨d, hd, hleads⟩ := exists_declaration_of_symbol hids hsymbol
      exact ⟨d, hd, hk ▸ hleads⟩
  case standard =>
    intro k name type hmem
    refine ⟨?_, hkeeps.symbolTypes k type (getElem?_builtinTypes_resolve.2 ⟨name, hmem⟩)⟩
    rw [resolve, Command.resolve_symbols]
    exact SymbolTable.get?_introduce_of_some (get?_standardConstants _ hmem) _
  case of_const =>
    intro m name value hd
    have hmem : Decl.const m name value ∈ p.command.declarations :=
      (Node.mem_declarations (n := .command p.command)).2 ⟨_, hd, rfl⟩
    obtain ⟨symbol, -, -, hsymbol, -⟩ := exists_symbol_of_declaration hids hmem
    obtain ⟨type, htype, hnode⟩ := htyped _ hmem symbol.id hsymbol
    exact ⟨symbol.id, type, hsymbol, htype, hnode⟩
  case of_var =>
    intro m name denoter hd
    have hmem : Decl.var m name denoter ∈ p.command.declarations :=
      (Node.mem_declarations (n := .command p.command)).2 ⟨_, hd, rfl⟩
    obtain ⟨symbol, -, -, hsymbol, -⟩ := exists_symbol_of_declaration hids hmem
    exact ⟨symbol.id, hsymbol, htyped _ hmem symbol.id hsymbol⟩

/-- Whatever errors a program has that is read from tokens, its types are complete. No state that the checker
comes by, one for each expression and each declaration, loses an entry of the states before it. The
expressions have types whatever resolution the checker is given, such as that of another program. -/
theorem typecheck_complete (tokens : List Token) :
    let p := (parse tokens).program
    let r := resolve p
    let states := p.command.states r (.start r)
    (typecheck r p).Complete r p.command ∧
    states.length = p.command.expressions.length + p.command.declarations.length ∧
    (Typing.start r :: (states ++ [typecheck r p])).Pairwise Typing.Keeps ∧
    ∀ (other : Resolution) id, id ∈ (typecheck other p).nodeTypes ↔
      ∃ e, (Node.command p.command).Contains (.expr e) ∧ e.mark.id = id := by
  intro p r states
  have hids : p.command.ids.Nodup := nodup_ids_tree tokens
  have hwalks := typecheck_walks r p
  refine ⟨complete_of_nodup hids, hwalks.length_states, hwalks.kept (fresh_start hids), ?_⟩
  exact fun other => mem_nodeTypes_typecheck other p

end TriLang
