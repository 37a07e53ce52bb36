import TriLang.Proofs.Typing.Tables

/-! # Where the type of errors comes from

What has the type `error` is not compared with anything, so that a mismatch is always one between two types
of values (`TypeError.Contrasts`). In return the type `error` never comes from nowhere: an expression
has it because something was reported or unresolved there, or because a symbol has it (`Expr.Failed`), and a
symbol has it because of its declaration. All that is kept by each step of the checker
(`Typing.Explained`, `Command.check_explained`) and so it holds in the end (`typecheck_explained`). -/
namespace TriLang
open Typing
set_option autoImplicit false

/-! ## Causes -/

/-- If types are reported as not the same, they are different types of values. -/
def TypeError.Contrasts (e : TypeError) : Prop :=
  match e.cause with
  | .mismatch expected found => expected ≠ found ∧ expected.isPlain = true ∧ found.isPlain = true
  | .operandMismatch _ lhs rhs => lhs ≠ rhs ∧ lhs.isPlain = true ∧ rhs.isPlain = true
  | _ => True

section
variable (r : Resolution) (t : Typing)

/-- What can be wrong with an operator in front of or between operands. -/
inductive Operator.Failed (arity : Nat) (op : Operator) : Prop where
  | unresolved (h : r.resolutions[op.id]? = some SymbolTable.unknown)
  | rejected (h : ⟨.notAnOperator op.spelling arity, op.span⟩ ∈ t.errors)

/-- What can be wrong with a name that is used as a value. -/
inductive Ident.Failed (ident : Ident) : Prop where
  | unresolved (h : r.resolutions[ident.id]? = some SymbolTable.unknown)
  | notAValue (kind : Symbol.Kind) (h : ⟨.notAValue ident.name kind, ident.span⟩ ∈ t.errors)
  | recursive (h : ⟨.recursiveConstant ident.name, ident.span⟩ ∈ t.errors)
  | symbol {k : Nat} (hk : r.resolutions[ident.id]? = some k) (htype : t.symbolTypes[k]? = some .error)

/-- What can be wrong with an expression itself, apart from its operands. -/
def Expr.Failed : Expr → Prop
  | binary _ op _ _ => op.Failed r t 2
  | unary _ op _ => op.Failed r t 1
  | int m spelling => ⟨.literalOutOfRange spelling, m.span⟩ ∈ t.errors
  | char m value => ⟨.literalOutOfRange (String.ofList ['\'', value, '\'']), m.span⟩ ∈ t.errors
  | name _ ident => ident.Failed r t
  | error _ => True

/-- What can be wrong with a denoter of a type. -/
inductive TypeDenoter.Failed (d : TypeDenoter) : Prop where
  | unresolved (h : r.resolutions[d.name.id]? = some SymbolTable.unknown)
  | notAType (h : ⟨.notAType d.name.name, d.span⟩ ∈ t.errors)

/-- What can be wrong with what a declaration takes its type from. -/
def Decl.Failed : Decl → Prop
  | const _ _ value => value.Failed r t
  | var _ _ denoter => denoter.Failed r t
  | seq _ _ _ => False
  | error _ => False

end

/-- Neither an error nor the type of a symbol is lost between the two states. -/
structure Typing.Remembers (t u : Typing) : Prop where
  errors : ∀ e ∈ t.errors, e ∈ u.errors
  symbolTypes : ∀ (k : Nat) type, t.symbolTypes[k]? = some type → u.symbolTypes[k]? = some type

section
variable {r : Resolution} {t u : Typing}

theorem Typing.Adds.remembers {P : TypeError → Prop} (h : Adds P t u) : Remembers t u :=
  ⟨fun _ he => h.reports.errors.subset he, fun k type hk => by rwa [h.symbolTypes]⟩

theorem Operator.Failed.remembers {arity : Nat} {op : Operator} (h : op.Failed r t arity)
    (hu : Remembers t u) : op.Failed r u arity := by
  cases h with
  | unresolved h => exact .unresolved h
  | rejected h => exact .rejected (hu.errors _ h)

theorem Ident.Failed.remembers {ident : Ident} (h : ident.Failed r t) (hu : Remembers t u) :
    ident.Failed r u := by
  cases h with
  | unresolved h => exact .unresolved h
  | notAValue kind h => exact .notAValue kind (hu.errors _ h)
  | recursive h => exact .recursive (hu.errors _ h)
  | symbol hk htype => exact .symbol hk (hu.symbolTypes _ _ htype)

theorem Expr.Failed.remembers {e : Expr} (h : e.Failed r t) (hu : Remembers t u) : e.Failed r u := by
  cases e with
  | binary m op lhs rhs => exact Operator.Failed.remembers h hu
  | unary m op operand => exact Operator.Failed.remembers h hu
  | int m spelling => exact hu.errors _ h
  | char m value => exact hu.errors _ h
  | name m ident => exact Ident.Failed.remembers h hu
  | error m => trivial

theorem TypeDenoter.Failed.remembers {d : TypeDenoter} (h : d.Failed r t) (hu : Remembers t u) :
    d.Failed r u := by
  cases h with
  | unresolved h => exact .unresolved h
  | notAType h => exact .notAType (hu.errors _ h)

theorem Decl.Failed.remembers {d : Decl} (h : d.Failed r t) (hu : Remembers t u) : d.Failed r u := by
  cases d with
  | const m name value => exact Expr.Failed.remembers h hu
  | var m name denoter => exact TypeDenoter.Failed.remembers h hu
  | seq m first second => exact h.elim
  | error m => exact h.elim

end

/-! ## Symbols with clear types -/

/-- Whether the types that come with a symbol are types of values, but for operands that only have to agree. -/
def Symbol.Kind.isClear : Symbol.Kind → Bool
  | operator (.binary lhs rhs result) => (lhs = .any || lhs.isPlain && rhs.isPlain) && result.isPlain
  | kind => kind.isPlain

/-- The node is bound to a symbol with clear types, or to the unknown symbol. -/
structure Resolution.Clear (r : Resolution) (node : Nat) : Prop where
  bound : r.kindOf? node ≠ none
  unknown : r.kindOf? node = some .unknown → r.resolutions[node]? = some SymbolTable.unknown
  clear : ∀ kind, r.kindOf? node = some kind → kind ≠ .unknown → kind.isClear = true

theorem isClear_initial : ∀ k < 26, ∀ symbol ∈ Resolving.initial.tables.symbols.get? k,
    (symbol.kind = .unknown → k = SymbolTable.unknown) ∧
      (symbol.kind ≠ .unknown → symbol.kind.isClear = true) := by decide +kernel

theorem clear_resolve (p : Program) {leaf : Leaf} (hleaf : (Node.command p.command).Applies leaf) :
    (resolve p).Clear leaf.id := by
  obtain ⟨k, hk⟩ := Option.isSome_iff_exists.1
    (Std.TreeMap.mem_iff_isSome_getElem?.1 (mem_resolutions_resolve.2 ⟨leaf, hleaf, rfl⟩))
  obtain ⟨symbol, hsymbol⟩ : ∃ symbol, (resolve p).symbols.get? k = some symbol :=
    ⟨_, Array.getElem?_eq_getElem (lt_size_resolve (.inl hk))⟩
  have hkind : (resolve p).kindOf? leaf.id = some symbol.kind := by
    rw [Resolution.kindOf?, Resolution.symbolOf?, hk, Option.bind_some, hsymbol]
    rfl
  have hclear : (symbol.kind = .unknown → k = SymbolTable.unknown) ∧
      (symbol.kind ≠ .unknown → symbol.kind.isClear = true) := by
    have hsymbols : (resolve p).symbols =
        Resolving.initial.tables.symbols.introduce p.command.declared := p.command.resolve_symbols _
    rw [hsymbols] at hsymbol
    rcases SymbolTable.get?_introduce hsymbol with hold | ⟨d, hd, rfl⟩
    · exact isClear_initial k (lt_of_get?_initial hold) symbol hold
    · rcases Command.kind_of_declared hd with hdecl | hdecl
      · simp [hdecl, Symbol.Kind.isClear, Symbol.Kind.isPlain]
      · simp [hdecl, Symbol.Kind.isClear, Symbol.Kind.isPlain]
  constructor
  · simp [hkind]
  · intro hunknown
    rw [hk, hclear.1 (Option.some.inj (hkind.symm.trans hunknown))]
  · intro kind hkind' hknown
    obtain rfl := Option.some.inj (hkind.symm.trans hkind')
    exact hclear.2 hknown

/-! ## Single nodes -/

theorem Ty.ne_any_of_isPlain {type : Ty} (h : type.isPlain = true) : type ≠ .any := by
  rintro rfl
  simp [isPlain] at h

theorem Ty.isPlain_of_ne {type : Ty} (hany : type ≠ .any) (herror : type ≠ .error) :
    type.isPlain = true := by
  cases type <;> simp_all [isPlain]

/-- What is reported contrasts types of values, if any, and `error` is found only where the node has failed. -/
structure Judged.Accounts (t : Typing) (failed : Typing → Prop) (j : Judged) : Prop where
  adds : Adds TypeError.Contrasts t j.after
  ne_any : j.type ≠ .any
  failed : j.type = .error → failed j.after

section
variable {r : Resolution} {t : Typing} {failed : Typing → Prop}

theorem Typing.expect_contrasts {expected found : Ty} (hexpected : expected ≠ .any)
    (hfound : found ≠ .any) (t : Typing) (span : Span) :
    Adds TypeError.Contrasts t (t.expect expected found span) := by
  unfold expect
  split
  · exact .refl t
  · next hwrong =>
    rw [not_or, not_or] at hwrong
    obtain ⟨hexpected', hfound', hne⟩ := hwrong
    exact t.adds_report ⟨hne, Ty.isPlain_of_ne hexpected hexpected', Ty.isPlain_of_ne hfound hfound'⟩

theorem Judged.accounts_plain {type : Ty} (h : type.isPlain = true) {u : Typing}
    (hu : Adds TypeError.Contrasts t u) : (Judged.mk type u).Accounts t failed :=
  ⟨hu, Ty.ne_any_of_isPlain h, fun herror => absurd herror (Ty.ne_error_of_isPlain h)⟩

theorem Typing.accounts_reject {cause : TypeError.Cause} {span : Span}
    (hcause : TypeError.Contrasts ⟨cause, span⟩) (hfailed : failed (t.report cause span)) :
    (t.reject cause span).Accounts t failed :=
  ⟨t.adds_report hcause, by simp [reject], fun _ => hfailed⟩

theorem Judged.accounts_unresolved (h : failed t) : (Judged.mk .error t).Accounts t failed :=
  ⟨.refl t, by simp, fun _ => h⟩

theorem Typing.mem_errors_report (t : Typing) (cause : TypeError.Cause) (span : Span) :
    ⟨cause, span⟩ ∈ (t.report cause span).errors := by simp [report]

theorem accounts_checkInt (m : Mark) (spelling : String) (t : Typing) :
    (checkInt spelling m.span t).Accounts t ((Expr.int m spelling).Failed r) := by
  unfold checkInt
  split
  · split
    · exact Judged.accounts_plain rfl (.refl t)
    · exact accounts_reject trivial (t.mem_errors_report _ _)
  · exact accounts_reject trivial (t.mem_errors_report _ _)

theorem accounts_checkChar (m : Mark) (value : Char) (t : Typing) :
    (checkChar value m.span t).Accounts t ((Expr.char m value).Failed r) := by
  unfold checkChar
  split
  · exact Judged.accounts_plain rfl (.refl t)
  · exact accounts_reject trivial (t.mem_errors_report _ _)

theorem Resolution.Clear.resolved {node : Nat} (h : r.Clear node) : r.resolutions[node]? ≠ none := by
  intro hnone
  exact h.bound (by simp [kindOf?, symbolOf?, hnone])

theorem accounts_checkValue {ident : Ident} (hident : r.Clear ident.id)
    (hany : ∀ k : Nat, t.symbolTypes[k]? ≠ some Ty.any) :
    (checkValue r ident t).Accounts t (fun t => ident.Failed r t) := by
  cases hk : r.typedSymbol? ident with
  | some k =>
    cases htype : t.symbolTypes[k]? with
    | some type =>
      rw [checkValue_typed hk htype]
      refine ⟨.refl t, ?_, ?_⟩
      · rintro rfl
        exact hany k htype
      · rintro rfl
        exact .symbol (Resolution.typedSymbol?_eq_some.1 hk).1 htype
    | none =>
      rw [checkValue_untyped hk htype]
      exact accounts_reject trivial (.recursive (t.mem_errors_report _ _))
  | none =>
    unfold checkValue
    split
    · next hnone => exact absurd hnone hident.resolved
    · next k hsymbol =>
      split
      · next hconst => simp [Resolution.typedSymbol?, hconst, hsymbol] at hk
      · next hvar => simp [Resolution.typedSymbol?, hvar, hsymbol] at hk
      · next hnone => exact absurd hnone hident.bound
      · next hunknown => exact Judged.accounts_unresolved (.unresolved (hident.unknown hunknown))
      · exact accounts_reject trivial (.notAValue _ (t.mem_errors_report _ _))

theorem accounts_checkBinary {op : Operator} (hop : r.Clear op.id) {lhs rhs : Ty} (hlhs : lhs ≠ .any)
    (hrhs : rhs ≠ .any) (lhsSpan rhsSpan : Span) :
    (checkBinary r op lhs rhs lhsSpan rhsSpan t).Accounts t (fun t => op.Failed r t 2) := by
  unfold checkBinary
  split
  · next param result hkind =>
    have hresult : result.isPlain = true := by
      simpa [Symbol.Kind.isClear] using hop.clear _ hkind (by simp)
    split
    · exact Judged.accounts_plain hresult (.refl t)
    · next hdiffer =>
      rw [not_or, not_or] at hdiffer
      obtain ⟨hlhs', hrhs', hne⟩ := hdiffer
      exact Judged.accounts_plain hresult
        (t.adds_report ⟨hne, Ty.isPlain_of_ne hlhs hlhs', Ty.isPlain_of_ne hrhs hrhs'⟩)
  · next lhsParam rhsParam result hany hkind =>
    obtain ⟨⟨hlhsParam, hrhsParam⟩, hresult⟩ : (lhsParam.isPlain = true ∧ rhsParam.isPlain = true) ∧
        result.isPlain = true := by
      simpa [Symbol.Kind.isClear, show lhsParam ≠ .any from hany] using hop.clear _ hkind (by simp)
    have hleft := expect_contrasts (Ty.ne_any_of_isPlain hlhsParam) hlhs t lhsSpan
    exact Judged.accounts_plain hresult
      (hleft.trans (expect_contrasts (Ty.ne_any_of_isPlain hrhsParam) hrhs _ rhsSpan))
  · next hnone => exact absurd hnone hop.bound
  · next hunknown => exact Judged.accounts_unresolved (.unresolved (hop.unknown hunknown))
  · exact accounts_reject trivial (.rejected (t.mem_errors_report _ _))

theorem accounts_checkUnary {op : Operator} (hop : r.Clear op.id) {operand : Ty} (hoperand : operand ≠ .any)
    (operandSpan : Span) :
    (checkUnary r op operand operandSpan t).Accounts t (fun t => op.Failed r t 1) := by
  unfold checkUnary
  split
  · next param result hkind =>
    have hresult : result.isPlain = true := by
      have hplain : Symbol.Kind.isPlain (.operator (.unary param result)) = true :=
        hop.clear _ hkind (by simp)
      rw [Symbol.Kind.isPlain, Bool.and_eq_true] at hplain
      exact hplain.2
    split
    · exact Judged.accounts_plain hresult (.refl t)
    · next hparam => exact Judged.accounts_plain hresult (expect_contrasts hparam hoperand t operandSpan)
  · next hnone => exact absurd hnone hop.bound
  · next hunknown => exact Judged.accounts_unresolved (.unresolved (hop.unknown hunknown))
  · exact accounts_reject trivial (.rejected (t.mem_errors_report _ _))

theorem TypeDenoter.accounts_check {d : TypeDenoter} (hname : r.Clear d.name.id) :
    (d.check r t).Accounts t (fun t => d.Failed r t) := by
  unfold check
  split
  · next type hkind => exact Judged.accounts_plain (hname.clear _ hkind (by simp)) (.refl t)
  · next hnone => exact absurd hnone hname.bound
  · next hunknown => exact Judged.accounts_unresolved (.unresolved (hname.unknown hunknown))
  · exact accounts_reject trivial (.notAType (t.mem_errors_report _ _))

theorem checkVariable_contrasts (ident : Ident) (hany : ∀ k : Nat, t.symbolTypes[k]? ≠ some Ty.any) :
    Adds TypeError.Contrasts t (checkVariable r ident t).2 ∧
    (checkVariable r ident t).1 ≠ some .any := by
  refine ⟨adds_checkVariable r t ident trivial, ?_⟩
  unfold checkVariable
  split
  · simp
  · next k hk =>
    split
    · cases htype : t.symbolTypes[k]? with
      | none => simp
      | some type =>
        rintro h
        exact hany k (htype.trans h)
    · simp
    · simp
    · simp

end

/-! ## States -/

/-- Where the type `error` stands in the tables, something in the tree has failed, and no types are reported
against each other but different types of values. -/
structure Typing.Explained (r : Resolution) (root : Node) (t : Typing) : Prop where
  contrasts : ∀ e ∈ t.errors, e.Contrasts
  ne_any : ∀ k : Nat, t.symbolTypes[k]? ≠ some Ty.any
  nodes : ∀ id : Nat, t.nodeTypes[id]? = some Ty.error →
    ∃ e, root.Contains (.expr e) ∧ e.mark.id = id ∧ e.Failed r t
  symbols : ∀ k : Nat, t.symbolTypes[k]? = some Ty.error →
    ∃ d, root.Contains (.decl d) ∧ r.declarations[d.mark.id]? = some k ∧ d.Failed r t

/-- The same of an expression that has been checked, and of the type that has been found. -/
structure Judged.Explained (r : Resolution) (root : Node) (e : Expr) (j : Judged) : Prop where
  after : j.after.Explained r root
  ne_any : j.type ≠ .any
  failed : j.type = .error → e.Failed r j.after

section
variable {r : Resolution} {root : Node} {t u : Typing}

/-- Old entries stay explained when nothing is lost; only what is new has to be explained. -/
theorem Typing.Explained.step (h : t.Explained r root) (hu : Remembers t u)
    (hcontrasts : ∀ e ∈ u.errors, e ∈ t.errors ∨ e.Contrasts)
    (hany : ∀ k : Nat, u.symbolTypes[k]? = some Ty.any → t.symbolTypes[k]? = some Ty.any)
    (hnodes : ∀ id : Nat, u.nodeTypes[id]? = some Ty.error → t.nodeTypes[id]? = some Ty.error ∨
      ∃ e, root.Contains (.expr e) ∧ e.mark.id = id ∧ e.Failed r u)
    (hsymbols : ∀ k : Nat, u.symbolTypes[k]? = some Ty.error → t.symbolTypes[k]? = some Ty.error ∨
      ∃ d, root.Contains (.decl d) ∧ r.declarations[d.mark.id]? = some k ∧ d.Failed r u) :
    u.Explained r root where
  contrasts e he := (hcontrasts e he).elim (h.contrasts e) id
  ne_any k hk := h.ne_any k (hany k hk)
  nodes id hid := by
    rcases hnodes id hid with hold | hnew
    · obtain ⟨e, he, heid, hfailed⟩ := h.nodes id hold
      exact ⟨e, he, heid, hfailed.remembers hu⟩
    · exact hnew
  symbols k hk := by
    rcases hsymbols k hk with hold | hnew
    · obtain ⟨d, hd, hleads, hfailed⟩ := h.symbols k hold
      exact ⟨d, hd, hleads, hfailed.remembers hu⟩
    · exact hnew

theorem Typing.Explained.adds (h : t.Explained r root) (hu : Adds TypeError.Contrasts t u) :
    u.Explained r root := by
  obtain ⟨more, hmore, hcontrasts⟩ := hu.errors
  refine h.step hu.remembers (fun e he => ?_) (fun k hk => ?_) (fun id hid => .inl ?_) fun k hk => .inl ?_
  · rw [hmore, List.mem_append] at he
    exact he.imp_right (hcontrasts e)
  · rwa [hu.symbolTypes] at hk
  · rwa [hu.nodeTypes] at hid
  · rwa [hu.symbolTypes] at hk

theorem Judged.Accounts.record {e : Expr} {j : Judged} (hj : j.Accounts t (fun t => e.Failed r t))
    (ht : t.Explained r root) (he : root.Contains (.expr e)) : (j.record e.mark.id).Explained r root e := by
  have hremembers : Remembers j.after (j.record e.mark.id).after := ⟨fun _ => id, fun _ _ => id⟩
  refine ⟨(ht.adds hj.adds).step hremembers (fun e => .inl) (fun k => id) (fun id hid => ?_)
    (fun k => .inl), hj.ne_any, fun herror => (hj.failed herror).remembers hremembers⟩
  rw [Judged.record, recordNode, Std.TreeMap.getElem?_insert] at hid
  split at hid
  · next hsame =>
    have herror := hj.failed (Option.some.inj hid)
    exact .inr ⟨e, he, Std.LawfulEqCmp.compare_eq_iff_eq.1 hsame, herror.remembers hremembers⟩
  · exact .inl hid

/-- The type of a symbol was there before, or it is the one that has been recorded for it. -/
theorem Typing.of_symbolTypes_recordDeclared {decl k : Nat} {type type' : Ty}
    (hk : (t.recordDeclared r decl type).symbolTypes[k]? = some type') :
    t.symbolTypes[k]? = some type' ∨ r.declarations[decl]? = some k ∧ type' = type := by
  unfold recordDeclared at hk
  split at hk
  · next symbol hsymbol =>
    rw [recordSymbol, Std.TreeMap.getElem?_insertIfNew] at hk
    split at hk
    · next hnew =>
      obtain rfl := Std.LawfulEqCmp.compare_eq_iff_eq.1 hnew.1
      exact .inr ⟨hsymbol, (Option.some.inj hk).symm⟩
    · exact .inl hk
  · exact .inl hk

theorem Typing.Explained.declare {d : Decl} {j : Judged} (hafter : j.after.Explained r root)
    (hd : root.Contains (.decl d)) (hne : j.type ≠ .any) (hfailed : j.type = .error → d.Failed r j.after) :
    (j.after.recordDeclared r d.mark.id j.type).Explained r root := by
  have hremembers : Remembers j.after (j.after.recordDeclared r d.mark.id j.type) :=
    ⟨fun e he => by rwa [errors_recordDeclared], (keeps_recordDeclared _ _ _).symbolTypes⟩
  refine hafter.step hremembers (fun e he => .inl ?_) (fun k hk => ?_) (fun id hid => .inl ?_) fun k hk => ?_
  · rwa [errors_recordDeclared] at he
  · rcases of_symbolTypes_recordDeclared hk with hold | ⟨-, hany⟩
    · exact hold
    · exact absurd hany.symm hne
  · rwa [nodeTypes_recordDeclared] at hid
  · rcases of_symbolTypes_recordDeclared hk with hold | ⟨hleads, herror⟩
    · exact .inl hold
    · exact .inr ⟨d, hd, hleads, (hfailed herror.symm).remembers hremembers⟩

end

/-! ## Trees -/

section
variable {r : Resolution} {root : Node} (hclear : ∀ leaf, root.Applies leaf → r.Clear leaf.id)
include hclear

theorem Expr.check_explained {e : Expr} (he : root.Contains (.expr e)) {t : Typing}
    (ht : t.Explained r root) : (e.check r t).Explained r root e := by
  induction e generalizing t with
  | binary m op lhs rhs ihl ihr =>
    have hop : r.Clear op.id := hclear op.toLeaf ⟨_, he, List.mem_singleton_self _⟩
    have hl := ihl (he.child (by simp [Node.children, children])) ht
    have hr := ihr (he.child (by simp [Node.children, children])) hl.after
    exact (accounts_checkBinary hop hl.ne_any hr.ne_any lhs.span rhs.span).record hr.after he
  | unary m op operand ih =>
    have hop : r.Clear op.id := hclear op.toLeaf ⟨_, he, List.mem_singleton_self _⟩
    have hoperand := ih (he.child (by simp [Node.children, children])) ht
    exact (accounts_checkUnary hop hoperand.ne_any operand.span).record hoperand.after he
  | int m spelling => exact (accounts_checkInt m spelling t).record ht he
  | char m value => exact (accounts_checkChar m value t).record ht he
  | name m ident =>
    have hident : r.Clear ident.id := hclear ident.toLeaf ⟨_, he, List.mem_singleton_self _⟩
    exact (accounts_checkValue hident ht.ne_any).record ht he
  | error m => exact (Judged.accounts_unresolved trivial).record ht he

theorem Expr.checkCondition_explained {e : Expr} (he : root.Contains (.expr e)) {t : Typing}
    (ht : t.Explained r root) : (e.checkCondition r t).Explained r root := by
  have hcheck := e.check_explained hclear he ht
  exact hcheck.after.adds (expect_contrasts (by simp) hcheck.ne_any _ _)

theorem Decl.check_explained {d : Decl} (hd : root.Contains (.decl d)) {t : Typing}
    (ht : t.Explained r root) : (d.check r t).Explained r root := by
  induction d generalizing t with
  | const m name value =>
    have hvalue := value.check_explained hclear (hd.child (by simp [Node.children, children])) ht
    exact hvalue.after.declare hd hvalue.ne_any hvalue.failed
  | var m name type =>
    have htype : root.Contains (.type type) := hd.child (by simp [Node.children, children])
    have hname : r.Clear type.name.id := hclear type.name.toLeaf ⟨_, htype, List.mem_singleton_self _⟩
    have hcheck := type.accounts_check hname (t := t)
    exact (ht.adds hcheck.adds).declare hd hcheck.ne_any hcheck.failed
  | seq m first second ihf ihs =>
    have hfirst := ihf (hd.child (by simp [Node.children, children])) ht
    exact ihs (hd.child (by simp [Node.children, children])) hfirst
  | error m => exact ht

theorem Param.checkAlone_explained {p : Param} (hp : root.Contains (.param p)) {t : Typing}
    (ht : t.Explained r root) : (p.checkAlone r t).Explained r root := by
  cases p with
  | value m e => exact (e.check_explained hclear (hp.child (by simp [Node.children, children])) ht).after
  | reference m ident => exact ht
  | blank m => exact ht
  | error m => exact ht

theorem Param.check_explained {p : Param} (hp : root.Contains (.param p)) {t : Typing}
    (ht : t.Explained r root) (callee : Ident) {formal : FormalParam}
    (hformal : formal.type.isPlain = true) :
    (p.check r callee formal t).Explained r root := by
  have hformal' := Ty.ne_any_of_isPlain hformal
  unfold check
  split
  · next m e _ =>
    have hcheck := e.check_explained hclear (hp.child (by simp [Node.children, children])) ht
    exact hcheck.after.adds (expect_contrasts hformal' hcheck.ne_any _ _)
  · next m ident _ =>
    have hvariable := checkVariable_contrasts (r := r) ident ht.ne_any
    split
    · next type after hcheck =>
      rw [hcheck] at hvariable
      have htype : type ≠ .any := fun h => hvariable.2 (congrArg some h)
      exact (ht.adds hvariable.1).adds (expect_contrasts hformal' htype _ _)
    · next after hcheck =>
      rw [hcheck] at hvariable
      exact ht.adds hvariable.1
  · exact Param.checkAlone_explained hclear hp (ht.adds (t.adds_report trivial))

theorem checkCall_explained {callee : Ident} {p : Param} (hcallee : r.Clear callee.id)
    (hp : root.Contains (.param p)) {t : Typing} (ht : t.Explained r root) :
    (checkCall r callee p t).Explained r root := by
  unfold checkCall
  split
  · next params hkind =>
    have hparams : ∀ formal ∈ params, formal.type.isPlain = true :=
      List.all_eq_true.1 (hcallee.clear _ hkind (by simp))
    unfold checkArguments
    split
    · exact ht
    · split
      · next formal _ => exact p.check_explained hclear hp ht callee (hparams formal (by simp))
      · split
        · exact ht
        · exact p.checkAlone_explained hclear hp (ht.adds (t.adds_report trivial))
  · exact p.checkAlone_explained hclear hp ht
  · exact p.checkAlone_explained hclear hp ht
  · exact p.checkAlone_explained hclear hp (ht.adds (t.adds_report trivial))

theorem checkAssign_explained {target : Ident} {value : Expr} (hvalue : root.Contains (.expr value))
    {t : Typing} (ht : t.Explained r root) : (checkAssign r target value t).Explained r root := by
  obtain ⟨htarget, hne⟩ := checkVariable_contrasts (r := r) target ht.ne_any
  have hcheck := value.check_explained hclear hvalue (ht.adds htarget)
  unfold checkAssign
  dsimp only
  split
  · next type htype =>
    have htype' : type ≠ .any := fun h => hne (htype.trans (congrArg some h))
    exact hcheck.after.adds (expect_contrasts htype' hcheck.ne_any _ _)
  · exact hcheck.after

theorem Command.check_explained {c : Command} (hc : root.Contains (.command c)) {t : Typing}
    (ht : t.Explained r root) : (c.check r t).Explained r root := by
  induction c generalizing t with
  | assign m target value =>
    exact checkAssign_explained hclear (hc.child (by simp [Node.children, children])) ht
  | call m callee param =>
    have hcallee : r.Clear callee.id :=
      hclear callee.toLeaf ⟨_, hc, List.mem_singleton_self _⟩
    exact checkCall_explained hclear hcallee (hc.child (by simp [Node.children, children])) ht
  | cond m c thenBranch elseBranch iht ihe =>
    have hcond := c.checkCondition_explained hclear (hc.child (by simp [Node.children, children])) ht
    have hthen := iht (hc.child (by simp [Node.children, children])) hcond
    exact ihe (hc.child (by simp [Node.children, children])) hthen
  | whileDo m c body rest ihb ihr =>
    have hcond := c.checkCondition_explained hclear (hc.child (by simp [Node.children, children])) ht
    have hbody := ihb (hc.child (by simp [Node.children, children])) hcond
    exact ihr (hc.child (by simp [Node.children, children])) hbody
  | doWhile m body c ih =>
    have hbody := ih (hc.child (by simp [Node.children, children])) ht
    exact c.checkCondition_explained hclear (hc.child (by simp [Node.children, children])) hbody
  | letIn m decl body rest ihb ihr =>
    have hdecl := decl.check_explained hclear (hc.child (by simp [Node.children, children])) ht
    have hbody := ihb (hc.child (by simp [Node.children, children])) hdecl
    exact ihr (hc.child (by simp [Node.children, children])) hbody
  | seq m first second ihf ihs =>
    have hfirst := ihf (hc.child (by simp [Node.children, children])) ht
    exact ihs (hc.child (by simp [Node.children, children])) hfirst
  | blank m => exact ht
  | error m => exact ht

end

/-! ## Whole programs -/

theorem explained_start (p : Program) (root : Node) :
    (Typing.start (resolve p)).Explained (resolve p) root := by
  have hstandard : ∀ entry ∈ standardConstants, entry.2.2.isPlain = true := by decide
  have hplain : ∀ (k : Nat) type, (Typing.start (resolve p)).symbolTypes[k]? = some type →
      type.isPlain = true := by
    intro k type hk
    obtain ⟨name, hmem⟩ := getElem?_builtinTypes_resolve.1 hk
    exact hstandard _ hmem
  constructor
  · intro e he
    simp [Typing.start] at he
  · intro k hk
    exact absurd (hplain k _ hk) (by decide)
  · intro id hid
    simp [Typing.start] at hid
  · intro k hk
    exact absurd (hplain k _ hk) (by decide)

/-- Whatever errors a text has: no two types are reported against each other but different types of values.
An expression that has the type `error` has failed, and a symbol that has it is that of a declaration that has,
be it of a variable or of a constant, whose value has the type `error` then. -/
theorem typecheck_explained (text : List Char) :
    let p := (parseText text).program
    let r := resolve p
    let t := typecheck r p
    (∀ e ∈ t.errors, e.Contrasts) ∧
    (∀ e, (Node.command p.command).Contains (.expr e) → t.nodeTypes[e.mark.id]? = some Ty.error →
      e.Failed r t) ∧
    ∀ k : Nat, t.symbolTypes[k]? = some Ty.error →
      ∃ d, (Node.command p.command).Contains (.decl d) ∧ r.declarations[d.mark.id]? = some k ∧
        d.Failed r t ∧
        ∀ m name value, d = .const m name value → t.nodeTypes[value.mark.id]? = some Ty.error := by
  intro p r t
  have hids : p.command.ids.Nodup := nodup_ids_tree (tokenize text).tokens
  have hexplained : t.Explained r (.command p.command) :=
    p.command.check_explained (fun leaf => clear_resolve p) (.here _) (explained_start p _)
  refine ⟨hexplained.contrasts, fun e he htype => ?_, fun k hk => ?_⟩
  · obtain ⟨e', he', hid, hfailed⟩ := hexplained.nodes _ htype
    have hsame : Node.expr e' = .expr e := Node.eq_of_id_eq (n := .command p.command) hids he' he hid
    exact Node.expr.inj hsame ▸ hfailed
  · obtain ⟨d, hd, hleads, hfailed⟩ := hexplained.symbols k hk
    refine ⟨d, hd, hleads, hfailed, ?_⟩
    rintro m name value rfl
    obtain ⟨k', type, hleads', hsymbol, hvalue⟩ := (complete_of_nodup hids).of_const m name value hd
    obtain rfl := Option.some.inj (hleads'.symm.trans hleads)
    obtain rfl := Option.some.inj (hsymbol.symm.trans hk)
    exact hvalue

/-- The number is out of range. Neither the operator nor the assignment adds anything to that. -/
example :
    let p := (parseText "let var x Integer in x = 40000 * 2 endlet pass".toList).program
    (typecheck (resolve p) p).errors = [⟨.literalOutOfRange "40000", ⟨25, 30⟩⟩] := by decide +kernel

end TriLang
