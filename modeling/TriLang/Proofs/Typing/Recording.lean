import TriLang.Proofs.Syntax.Marks
import TriLang.Typing.Checker

/-! # What the checker records

Checking takes no error back. The functions that check a single node only report: there is one lemma for
each of them, which names the errors that it can add (`Typing.Adds`), and the rest follows
(`Typing.Reports`). Those that walk a tree also record types, but only at the nodes of that tree
(`Typing.Grows`), and an expression leaves the types of symbols alone (`Expr.check_symbolTypes`). -/
namespace TriLang
set_option autoImplicit false

namespace Typing

/-- Nothing is recorded between the two states, apart from errors. -/
structure Reports (t u : Typing) : Prop where
  errors : t.errors <+: u.errors
  nodeTypes : u.nodeTypes = t.nodeTypes
  symbolTypes : u.symbolTypes = t.symbolTypes

theorem Reports.refl (t : Typing) : Reports t t := ⟨List.prefix_refl _, rfl, rfl⟩

theorem Reports.trans {t u v : Typing} (h : Reports t u) (h' : Reports u v) : Reports t v :=
  ⟨h.errors.trans h'.errors, h'.nodeTypes.trans h.nodeTypes, h'.symbolTypes.trans h.symbolTypes⟩

/-- Nothing is recorded between the two states, apart from errors that have the property. -/
structure Adds (P : TypeError → Prop) (t u : Typing) : Prop where
  errors : ∃ more, u.errors = t.errors ++ more ∧ ∀ e ∈ more, P e
  nodeTypes : u.nodeTypes = t.nodeTypes
  symbolTypes : u.symbolTypes = t.symbolTypes

section
variable {P : TypeError → Prop} {t u v : Typing}

theorem Adds.refl (t : Typing) : Adds P t t := ⟨⟨[], by simp⟩, rfl, rfl⟩

theorem Adds.trans (h : Adds P t u) (h' : Adds P u v) : Adds P t v := by
  obtain ⟨more, hmore, hP⟩ := h.errors
  obtain ⟨more', hmore', hP'⟩ := h'.errors
  refine ⟨⟨more ++ more', ?_, List.forall_mem_append.2 ⟨hP, hP'⟩⟩, h'.nodeTypes.trans h.nodeTypes,
    h'.symbolTypes.trans h.symbolTypes⟩
  rw [hmore', hmore, List.append_assoc]

theorem Adds.reports (h : Adds P t u) : Reports t u := by
  obtain ⟨more, hmore, -⟩ := h.errors
  exact ⟨⟨more, hmore.symm⟩, h.nodeTypes, h.symbolTypes⟩

theorem Adds.mono {Q : TypeError → Prop} (h : Adds P t u) (hPQ : ∀ e, P e → Q e) : Adds Q t u := by
  obtain ⟨more, hmore, hP⟩ := h.errors
  exact ⟨⟨more, hmore, fun e he => hPQ e (hP e he)⟩, h.nodeTypes, h.symbolTypes⟩

theorem adds_report (t : Typing) {cause : TypeError.Cause} {span : Span} (h : P ⟨cause, span⟩) :
    Adds P t (t.report cause span) := ⟨⟨_, rfl, List.forall_mem_singleton.2 h⟩, rfl, rfl⟩

theorem adds_reject (t : Typing) {cause : TypeError.Cause} {span : Span} (h : P ⟨cause, span⟩) :
    Adds P t (t.reject cause span).after := t.adds_report h

theorem adds_expect (t : Typing) {expected found : Ty} {span : Span}
    (h : P ⟨.mismatch expected found, span⟩) : Adds P t (t.expect expected found span) := by
  unfold expect
  split
  · exact .refl t
  · exact t.adds_report h

end

theorem reports_report (t : Typing) (cause : TypeError.Cause) (span : Span) :
    Reports t (t.report cause span) := (t.adds_report trivial : Adds (fun _ => True) _ _).reports

theorem reports_expect (t : Typing) (expected found : Ty) (span : Span) :
    Reports t (t.expect expected found span) :=
  (t.adds_expect trivial : Adds (fun _ => True) _ _).reports

/-- Between the two states types of nodes are recorded only at the given nodes, and no error is taken
back. -/
structure Grows (nodes : List Nat) (t u : Typing) : Prop where
  errors : t.errors <+: u.errors
  nodeTypes : ∀ n, n ∉ nodes → u.nodeTypes[n]? = t.nodeTypes[n]?

namespace Grows
variable {nodes nodes' : List Nat} {t u v : Typing}

theorem refl (nodes : List Nat) (t : Typing) : Grows nodes t t :=
  ⟨List.prefix_refl _, fun _ _ => rfl⟩

theorem of_reports (h : Reports t u) (nodes : List Nat) : Grows nodes t u :=
  ⟨h.errors, fun n _ => by rw [h.nodeTypes]⟩

theorem mono (h : Grows nodes t u) (hsub : ∀ n ∈ nodes, n ∈ nodes') : Grows nodes' t u :=
  ⟨h.errors, fun n hn => h.nodeTypes n fun hn' => hn (hsub n hn')⟩

theorem append (h : Grows nodes t u) (h' : Grows nodes' u v) : Grows (nodes ++ nodes') t v :=
  ⟨h.errors.trans h'.errors, fun n hn => by
    rw [List.mem_append, not_or] at hn
    rw [h'.nodeTypes n hn.2, h.nodeTypes n hn.1]⟩

theorem andReports (h : Grows nodes t u) (h' : Reports u v) : Grows nodes t v :=
  ⟨h.errors.trans h'.errors, fun n hn => by rw [h'.nodeTypes, h.nodeTypes n hn]⟩

theorem accepted (h : Grows nodes t u) (hu : u.errors = []) : t.errors = [] :=
  List.prefix_nil.1 (hu ▸ h.errors)

end Grows

theorem Reports.accepted {t u : Typing} (h : Reports t u) (hu : u.errors = []) : t.errors = [] :=
  List.prefix_nil.1 (hu ▸ h.errors)

theorem grows_recordNode (t : Typing) (node : Nat) (type : Ty) :
    Grows [node] t (t.recordNode node type) := by
  refine ⟨List.prefix_refl _, fun n hn => ?_⟩
  have hne : node ≠ n := fun h => hn (by simp [h])
  simp [recordNode, Std.TreeMap.getElem?_insert, hne]

theorem grows_recordDeclared (t : Typing) (r : Resolution) (decl : Nat) (type : Ty) :
    Grows [] t (t.recordDeclared r decl type) := by
  unfold recordDeclared
  split
  · exact ⟨List.prefix_refl _, fun _ _ => rfl⟩
  · exact .refl [] t

end Typing

open Typing

/-! ## Single nodes -/

/-- The symbol that a name is bound to, if it is that of a constant or a variable. -/
def Resolution.typedSymbol? (r : Resolution) (ident : Ident) : Option Nat :=
  match r.kindOf? ident.id with
  | some (.const _) | some .var => r.resolutions[ident.id]?
  | _ => none

theorem Resolution.typedSymbol?_eq_some {r : Resolution} {ident : Ident} {k : Nat} :
    r.typedSymbol? ident = some k ↔ r.resolutions[ident.id]? = some k ∧
      ((∃ builtin?, r.kindOf? ident.id = some (.const builtin?)) ∨ r.kindOf? ident.id = some .var) := by
  unfold typedSymbol?
  split
  · next hkind => simp [hkind]
  · next hkind => simp [hkind]
  · next hconst hvar =>
    have hnone : ¬ ((∃ builtin?, r.kindOf? ident.id = some (.const builtin?)) ∨
        r.kindOf? ident.id = some .var) := by
      rintro (⟨builtin?, hkind⟩ | hkind)
      · exact hconst builtin? hkind
      · exact hvar hkind
    simp [hnone]

section
variable {r : Resolution} {ident : Ident} {k : Nat} {type : Ty} {t : Typing}

theorem checkValue_typed (hk : r.typedSymbol? ident = some k) (ht : t.symbolTypes[k]? = some type) :
    checkValue r ident t = ⟨type, t⟩ := by
  obtain ⟨hresolved, ⟨builtin?, hkind⟩ | hkind⟩ := Resolution.typedSymbol?_eq_some.1 hk
  · simp [checkValue, hresolved, hkind, ht]
  · simp [checkValue, hresolved, hkind, ht]

theorem checkValue_untyped (hk : r.typedSymbol? ident = some k) (ht : t.symbolTypes[k]? = none) :
    checkValue r ident t = t.reject (.recursiveConstant ident.name) ident.span := by
  obtain ⟨hresolved, ⟨builtin?, hkind⟩ | hkind⟩ := Resolution.typedSymbol?_eq_some.1 hk
  · simp [checkValue, hresolved, hkind, ht]
  · simp [checkValue, hresolved, hkind, ht]

theorem checkVariable_typed (hk : r.typedSymbol? ident = some k)
    (hvar : r.kindOf? ident.id = some .var) (ht : t.symbolTypes[k]? = some type) :
    checkVariable r ident t = (some type, t) := by
  have hresolved := (Resolution.typedSymbol?_eq_some.1 hk).1
  simp [checkVariable, hresolved, hvar, ht]

end

section
variable (r : Resolution) {P : TypeError → Prop} (t : Typing)

theorem adds_checkInt {spelling : String} {span : Span} (h : P ⟨.literalOutOfRange spelling, span⟩) :
    Adds P t (checkInt spelling span t).after := by
  unfold checkInt
  split
  · split
    · exact .refl t
    · exact t.adds_reject h
  · exact t.adds_reject h

theorem adds_checkChar {value : Char} {span : Span}
    (h : P ⟨.literalOutOfRange (String.ofList ['\'', value, '\'']), span⟩) :
    Adds P t (checkChar value span t).after := by
  unfold checkChar
  split
  · exact .refl t
  · exact t.adds_reject h

theorem adds_checkValue {ident : Ident}
    (hrecursive : ∀ k, r.typedSymbol? ident = some k → t.symbolTypes[k]? = none →
      P ⟨.recursiveConstant ident.name, ident.span⟩)
    (hkind : ∀ kind, P ⟨.notAValue ident.name kind, ident.span⟩) :
    Adds P t (checkValue r ident t).after := by
  unfold checkValue
  split
  · exact .refl t
  · next symbol hsymbol =>
    split
    · next hconst =>
      split
      · exact .refl t
      · next huntyped =>
        have htyped := Resolution.typedSymbol?_eq_some.2 ⟨hsymbol, .inl ⟨_, hconst⟩⟩
        exact t.adds_reject (hrecursive symbol htyped huntyped)
    · next hvar =>
      split
      · exact .refl t
      · next huntyped =>
        have htyped := Resolution.typedSymbol?_eq_some.2 ⟨hsymbol, .inr hvar⟩
        exact t.adds_reject (hrecursive symbol htyped huntyped)
    · exact .refl t
    · exact .refl t
    · exact t.adds_reject (hkind _)

theorem adds_checkVariable (ident : Ident) (h : P ⟨.notAVariable ident.name, ident.span⟩) :
    Adds P t (checkVariable r ident t).2 := by
  unfold checkVariable
  split
  · exact .refl t
  · split
    · exact .refl t
    · exact .refl t
    · exact .refl t
    · exact t.adds_report h

theorem adds_checkBinary {op : Operator} {lhs rhs : Ty} {lhsSpan rhsSpan : Span}
    (hoperands : P ⟨.operandMismatch op.spelling lhs rhs, lhsSpan.join rhsSpan⟩)
    (hlhs : ∀ expected, P ⟨.mismatch expected lhs, lhsSpan⟩)
    (hrhs : ∀ expected, P ⟨.mismatch expected rhs, rhsSpan⟩)
    (hop : P ⟨.notAnOperator op.spelling 2, op.span⟩) :
    Adds P t (checkBinary r op lhs rhs lhsSpan rhsSpan t).after := by
  unfold checkBinary
  split
  · split
    · exact .refl t
    · exact t.adds_report hoperands
  · exact (t.adds_expect (hlhs _)).trans (adds_expect _ (hrhs _))
  · exact .refl t
  · exact .refl t
  · exact t.adds_reject hop

theorem adds_checkUnary {op : Operator} {operand : Ty} {operandSpan : Span}
    (hoperand : ∀ expected, P ⟨.mismatch expected operand, operandSpan⟩)
    (hop : P ⟨.notAnOperator op.spelling 1, op.span⟩) :
    Adds P t (checkUnary r op operand operandSpan t).after := by
  unfold checkUnary
  split
  · dsimp only
    split
    · exact .refl t
    · exact t.adds_expect (hoperand _)
  · exact .refl t
  · exact .refl t
  · exact t.adds_reject hop

theorem TypeDenoter.adds_check (d : TypeDenoter) (h : P ⟨.notAType d.name.name, d.span⟩) :
    Adds P t (d.check r t).after := by
  unfold check
  split
  · exact .refl t
  · exact .refl t
  · exact .refl t
  · exact t.adds_reject h

end

theorem reports_checkInt (spelling : String) (span : Span) (t : Typing) :
    Reports t (checkInt spelling span t).after :=
  (adds_checkInt t trivial : Adds (fun _ => True) _ _).reports

theorem reports_checkChar (value : Char) (span : Span) (t : Typing) :
    Reports t (checkChar value span t).after :=
  (adds_checkChar t trivial : Adds (fun _ => True) _ _).reports

variable (r : Resolution)

theorem reports_checkValue (ident : Ident) (t : Typing) :
    Reports t (checkValue r ident t).after :=
  (adds_checkValue r t (fun _ _ _ => trivial) fun _ => trivial : Adds (fun _ => True) _ _).reports

theorem reports_checkVariable (ident : Ident) (t : Typing) :
    Reports t (checkVariable r ident t).2 :=
  (adds_checkVariable r t ident trivial : Adds (fun _ => True) _ _).reports

theorem reports_checkBinary (op : Operator) (lhs rhs : Ty) (lhsSpan rhsSpan : Span) (t : Typing) :
    Reports t (checkBinary r op lhs rhs lhsSpan rhsSpan t).after :=
  (adds_checkBinary r t trivial (fun _ => trivial) (fun _ => trivial) trivial :
    Adds (fun _ => True) _ _).reports

theorem reports_checkUnary (op : Operator) (operand : Ty) (operandSpan : Span) (t : Typing) :
    Reports t (checkUnary r op operand operandSpan t).after :=
  (adds_checkUnary r t (fun _ => trivial) trivial : Adds (fun _ => True) _ _).reports

theorem TypeDenoter.reports_check (d : TypeDenoter) (t : Typing) :
    Reports t (d.check r t).after :=
  (d.adds_check r t trivial : Adds (fun _ => True) _ _).reports

/-! ## Trees -/

theorem Typing.Reports.grows_record {t : Typing} {j : Judged} (h : Reports t j.after) (node : Nat) :
    Typing.Grows [node] t (j.record node).after :=
  ((Grows.of_reports h []).append (grows_recordNode _ node _)).mono (by simp)

theorem Expr.check_grows (e : Expr) (t : Typing) :
    Typing.Grows e.ids t (e.check r t).after := by
  induction e generalizing t with
  | binary m op lhs rhs ihl ihr =>
    have hop := (reports_checkBinary r op (lhs.check r t).type (rhs.check r (lhs.check r t).after).type
      lhs.span rhs.span (rhs.check r (lhs.check r t).after).after).grows_record m.id
    exact ((ihl t).append ((ihr _).append hop)).mono (by simp +contextual [or_imp])
  | unary m op operand ih =>
    have hop := (reports_checkUnary r op (operand.check r t).type operand.span
      (operand.check r t).after).grows_record m.id
    exact ((ih t).append hop).mono (by simp +contextual)
  | int m spelling => exact (reports_checkInt spelling m.span t).grows_record m.id
  | char m value => exact (reports_checkChar value m.span t).grows_record m.id
  | name m ident => exact ((reports_checkValue r ident t).grows_record m.id).mono (by simp)
  | error m => exact grows_recordNode t m.id .error

theorem Expr.check_symbolTypes (e : Expr) (t : Typing) :
    (e.check r t).after.symbolTypes = t.symbolTypes := by
  induction e generalizing t with
  | binary m op lhs rhs ihl ihr =>
    have hop := (reports_checkBinary r op (lhs.check r t).type (rhs.check r (lhs.check r t).after).type
      lhs.span rhs.span (rhs.check r (lhs.check r t).after).after).symbolTypes
    exact hop.trans ((ihr _).trans (ihl t))
  | unary m op operand ih =>
    have hop := (reports_checkUnary r op (operand.check r t).type operand.span
      (operand.check r t).after).symbolTypes
    exact hop.trans (ih t)
  | int m spelling => exact (reports_checkInt spelling m.span t).symbolTypes
  | char m value => exact (reports_checkChar value m.span t).symbolTypes
  | name m ident => exact (reports_checkValue r ident t).symbolTypes
  | error m => rfl

end TriLang
