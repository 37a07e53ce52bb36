import TriLang.Proofs.Scoping.Registration
import TriLang.Proofs.Typing.Recording
import TriLang.Proofs.Typing.Rules

/-! # Types of symbols

While an accepted program is checked, the checker holds the types of just those symbols that belong to the
standard environment or to a declaration that has been checked, and they are the types that the rules give
(`Typing.Agrees`). A name that is used as a value stands for one of those symbols, or for the constant whose
value is being checked (`Resolution.Stands`). -/
namespace TriLang
set_option autoImplicit false

/-! ## Types that are not a stand-in -/

/-- Whether values can have the type. -/
def Ty.isPlain : Ty → Bool
  | boolean | char | integer => true
  | any | error => false

/-- Whether the types that come with a symbol are types of values, or any of them for an operand. -/
def Symbol.Kind.isPlain : Symbol.Kind → Bool
  | const none => true
  | const (some t) => t.isPlain
  | var => true
  | .type t => t.isPlain
  | operator (.unary param result) => (param.isPlain || param = .any) && result.isPlain
  | operator (.binary lhs rhs result) =>
    (lhs.isPlain || lhs = .any) && (rhs.isPlain || rhs = .any) && result.isPlain
  | procedure params => params.all (·.type.isPlain)
  | unknown => false

theorem isPlain_standardEnvironment : ∀ e ∈ standardEnvironment, e.2.kind.isPlain = true := by decide

theorem Ty.ne_error_of_isPlain {type : Ty} (h : type.isPlain = true) : type ≠ .error := by
  rintro rfl
  simp [isPlain] at h

theorem Ty.ne_error_of_isPlain_or {type : Ty} (h : (type.isPlain || type = .any) = true) :
    type ≠ .error := by
  rintro rfl
  simp [isPlain] at h

/-! ## What a name stands for -/

/-- The node is resolved to the symbol, which is that of a visible declaration or belongs to the standard
environment. -/
structure Resolution.Stands (r : Resolution) (env : Env) (node : Nat) (symbol : Symbol) : Prop where
  resolved : r.resolutions[node]? = some symbol.id
  entry : r.symbols.get? symbol.id = some symbol
  origin : (∃ d, env.Visible d ∧ symbol.kind = d.kind ∧ symbol.decl? = some d.node ∧
      r.declarations[d.node]? = some symbol.id) ∨
    (symbol.decl? = none ∧ ∃ entry ∈ standardEnvironment, symbol.kind = entry.2.kind)

theorem Resolution.Stands.symbolOf?_eq {r : Resolution} {env : Env} {node : Nat} {symbol : Symbol}
    (h : r.Stands env node symbol) : r.symbolOf? node = some symbol := by
  rw [symbolOf?, h.resolved]
  exact h.entry

theorem Known.stands {r : Resolution} {env : Env} {name : String} {node k : Nat}
    (hnode : r.resolutions[node]? = some k) (h : Known r env name k) :
    ∃ symbol, r.Stands env node symbol := by
  cases h with
  | @declared d _ hd hsymbol hentry =>
    exact ⟨⟨k, name, d.kind, some d.name.span, some d.node⟩, hnode, hentry,
      .inl ⟨d, (Env.find?_visible hd).1, rfl, rfl, hsymbol⟩⟩
  | @standard entity _ hd he hentry =>
    obtain ⟨front, back, hmem, -⟩ := List.lookup_eq_some_iff.1 he
    have hentity : (name, entity) ∈ standardEnvironment := by rw [hmem]; simp
    exact ⟨⟨k, name, entity.kind, none, none⟩, hnode, hentry, .inr ⟨rfl, _, hentity, rfl⟩⟩

/-! ## What the rules say of a symbol -/

variable {r : Resolution} {decls : List Decl}

/-- The type of a constant or a variable. -/
inductive SymbolType (r : Resolution) (decls : List Decl) (symbol : Symbol) (type : Ty) : Prop where
  | builtin (hkind : symbol.kind = .const (some type))
  | const {m : Mark} {name : Ident} {value : Expr} (hkind : symbol.kind = .const none)
    (hdecl : symbol.decl? = some m.id) (hmem : Decl.const m name value ∈ decls)
    (hvalue : HasType r decls value type)
  | var {m : Mark} {name : Ident} {denoter : TypeDenoter} (hkind : symbol.kind = .var)
    (hdecl : symbol.decl? = some m.id) (hmem : Decl.var m name denoter ∈ decls)
    (htype : r.kindOf? denoter.name.id = some (.type type))

theorem SymbolType.hasType {symbol : Symbol} {type : Ty} {m : Mark} {ident : Ident}
    (h : SymbolType r decls symbol type) (hsymbol : r.symbolOf? ident.id = some symbol) :
    HasType r decls (.name m ident) type := by
  cases h with
  | builtin hkind => exact .builtin (by rw [Resolution.kindOf?_eq hsymbol, hkind])
  | const hkind hdecl hmem hvalue => exact .const hsymbol hkind hdecl hmem hvalue
  | var hkind hdecl hmem htype => exact .var ⟨hsymbol, hkind, hdecl, hmem, htype⟩

theorem VariableType.symbolType {symbol : Symbol} {type : Ty} {ident : Ident}
    (h : VariableType r decls ident type) (hsymbol : r.symbolOf? ident.id = some symbol) :
    SymbolType r decls symbol type := by
  obtain ⟨hsymbol', hkind, hdecl, hmem, htype⟩ := h
  obtain rfl := Option.some.inj (hsymbol.symm.trans hsymbol')
  exact .var hkind hdecl hmem htype

theorem HasType.symbolType {symbol : Symbol} {type : Ty} {m : Mark} {ident : Ident}
    (h : HasType r decls (.name m ident) type) (hsymbol : r.symbolOf? ident.id = some symbol) :
    SymbolType r decls symbol type := by
  cases h with
  | builtin hkind =>
    rw [Resolution.kindOf?_eq hsymbol] at hkind
    exact .builtin (Option.some.inj hkind)
  | const hsymbol' hkind hdecl hmem hvalue =>
    obtain rfl := Option.some.inj (hsymbol.symm.trans hsymbol')
    exact .const hkind hdecl hmem hvalue
  | var h => exact h.symbolType hsymbol

theorem SymbolType.variableType {symbol : Symbol} {type : Ty} {ident : Ident}
    (h : SymbolType r decls symbol type) (hvar : symbol.kind = .var)
    (hsymbol : r.symbolOf? ident.id = some symbol) : VariableType r decls ident type := by
  cases h with
  | builtin hkind => simp [hvar] at hkind
  | const hkind => simp [hvar] at hkind
  | var hkind hdecl hmem htype => exact ⟨hsymbol, hkind, hdecl, hmem, htype⟩

/-! ## The invariant -/

/-- Nothing has been reported, and the types of symbols are those that the rules give, for the standard
environment and the declarations at the visited nodes. -/
structure Typing.Agrees (t : Typing) (r : Resolution) (decls : List Decl) (visited : List Nat) :
    Prop where
  accepted : t.errors = []
  builtin : ∀ k symbol type, r.symbols.get? k = some symbol → symbol.kind = .const (some type) →
    t.symbolTypes[k]? = some type
  declared : ∀ node ∈ visited, ∀ k, r.declarations[node]? = some k →
    ∃ type, t.symbolTypes[k]? = some type
  sound : ∀ k symbol type, r.symbols.get? k = some symbol → t.symbolTypes[k]? = some type →
    type.isPlain = true ∧ SymbolType r decls symbol type ∧
      ∀ node, symbol.decl? = some node → node ∈ visited

theorem Typing.Agrees.step {t u : Typing} {visited : List Nat} (h : t.Agrees r decls visited)
    (hu : u.errors = []) (hsymbols : u.symbolTypes = t.symbolTypes) : u.Agrees r decls visited :=
  ⟨hu, hsymbols ▸ h.builtin, hsymbols ▸ h.declared, hsymbols ▸ h.sound⟩

theorem Typing.symbolTypes_recordDeclared (t : Typing) {decl k : Nat}
    (hk : r.declarations[decl]? = some k) (hnone : t.symbolTypes[k]? = none) (type : Ty) (n : Nat) :
    (t.recordDeclared r decl type).symbolTypes[n]? =
      if n = k then some type else t.symbolTypes[n]? := by
  have hmem : k ∉ t.symbolTypes := by simpa using hnone
  simp only [recordDeclared, hk, recordSymbol, Std.TreeMap.getElem?_insertIfNew,
    Std.LawfulEqCmp.compare_eq_iff_eq, eq_comm (a := n), hmem, not_false_eq_true, and_true]

/-- Giving the symbol of a declaration the type that the rules give it. -/
theorem Typing.Agrees.recordDeclared {t : Typing} {visited : List Nat} {d : Declared} {type : Ty}
    (h : t.Agrees r decls visited) (hd : d.Registered r) (hnew : d.node ∉ visited)
    (hplain : type.isPlain = true) (hkind : ∀ builtin, d.kind ≠ .const (some builtin))
    (htype : ∀ symbol, symbol.kind = d.kind → symbol.decl? = some d.node →
      SymbolType r decls symbol type) :
    (t.recordDeclared r d.node type).Agrees r decls (visited ++ [d.node]) := by
  obtain ⟨k, hk, hentry⟩ := hd
  have hnone : t.symbolTypes[k]? = none := by
    cases hold : t.symbolTypes[k]? with
    | none => rfl
    | some type' => exact absurd ((h.sound _ _ _ hentry hold).2.2 _ rfl) hnew
  have hinsert := t.symbolTypes_recordDeclared hk hnone type
  constructor
  · simpa [Typing.recordDeclared, hk, recordSymbol] using h.accepted
  · intro n symbol builtin hsymbol hbuiltin
    have hn : n ≠ k := by
      rintro rfl
      obtain rfl := Option.some.inj (hentry.symm.trans hsymbol)
      exact hkind _ hbuiltin
    rw [hinsert, if_neg hn]
    exact h.builtin _ _ _ hsymbol hbuiltin
  · intro node hnode n hn
    rw [hinsert]
    by_cases hsame : n = k
    · exact ⟨type, if_pos hsame⟩
    · rcases List.mem_append.1 hnode with hnode | hnode
      · simpa [hsame] using h.declared _ hnode _ hn
      · obtain rfl := List.mem_singleton.1 hnode
        exact absurd (Option.some.inj (hn.symm.trans hk)) hsame
  · intro n symbol type' hsymbol htype'
    rw [hinsert] at htype'
    by_cases hn : n = k
    · subst hn
      obtain rfl := Option.some.inj (hentry.symm.trans hsymbol)
      rw [if_pos rfl] at htype'
      obtain rfl := Option.some.inj htype'
      exact ⟨hplain, htype _ rfl rfl, fun node hnode => by simp [← Option.some.inj hnode]⟩
    · rw [if_neg hn] at htype'
      obtain ⟨hold, hsound, hvisited⟩ := h.sound _ _ _ hsymbol htype'
      exact ⟨hold, hsound, fun node hnode => List.mem_append_left _ (hvisited _ hnode)⟩

end TriLang
