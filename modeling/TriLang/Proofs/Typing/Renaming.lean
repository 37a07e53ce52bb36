import TriLang.Typing.Checker
import TriLang.Proofs.Compilation.Declarations
import TriLang.Proofs.Scoping.Renaming

/-! # Type checking compares no names at all

The checker meets a name only through the symbol that resolution has bound it to; the name itself is put into
an error and nothing else. So to check a renamed tree against a renamed resolution is to check the tree and to
rename the errors. In a tree that was read from a text the names are identifiers, and no operator is spelled
like one, so that all phases behind the parser see names only up to equality (`findings_rename`). -/
namespace TriLang
set_option autoImplicit false

variable (ρ : Renaming)

/-- The cause with every name changed. Operators and literals stay. -/
def TypeError.Cause.rename : TypeError.Cause → TypeError.Cause
  | mismatch expected found => mismatch expected found
  | operandMismatch op lhs rhs => operandMismatch op lhs rhs
  | notAValue name kind => notAValue (ρ.apply name) kind
  | notAVariable name => notAVariable (ρ.apply name)
  | notAType name => notAType (ρ.apply name)
  | notAnOperator op arity => notAnOperator op arity
  | notAProcedure name => notAProcedure (ρ.apply name)
  | arityMismatch name expected found => arityMismatch (ρ.apply name) expected found
  | parameterMode name expected => parameterMode (ρ.apply name) expected
  | recursiveConstant name => recursiveConstant (ρ.apply name)
  | literalOutOfRange literal => literalOutOfRange literal

def TypeError.rename (e : TypeError) : TypeError := ⟨e.cause.rename ρ, e.span⟩

def Typing.rename (t : Typing) : Typing := { t with errors := t.errors.map (TypeError.rename ρ) }

def Judged.rename (j : Judged) : Judged := ⟨j.type, j.after.rename ρ⟩

/-! ## Recording -/

namespace Typing
variable (t : Typing)

theorem report_rename (cause : TypeError.Cause) (span : Span) :
    (t.rename ρ).report (cause.rename ρ) span = (t.report cause span).rename ρ := by
  simp [report, rename, TypeError.rename]

theorem reject_rename (cause : TypeError.Cause) (span : Span) :
    (t.rename ρ).reject (cause.rename ρ) span = (t.reject cause span).rename ρ :=
  congrArg (Judged.mk .error) (t.report_rename ρ cause span)

theorem recordDeclared_rename (r : Resolution) (decl : Nat) (type : Ty) :
    (t.rename ρ).recordDeclared (r.rename ρ) decl type = (t.recordDeclared r decl type).rename ρ := by
  have hsymbol : (r.rename ρ).declarations[decl]? = r.declarations[decl]? := rfl
  unfold recordDeclared
  rw [hsymbol]
  cases r.declarations[decl]? with
  | some symbol => rfl
  | none => rfl

theorem expect_rename (expected found : Ty) (span : Span) :
    (t.rename ρ).expect expected found span = (t.expect expected found span).rename ρ := by
  unfold expect
  split
  · rfl
  · exact t.report_rename ρ (.mismatch expected found) span

end Typing

/-! ## Literals, names and operators -/

section Leaves
variable (r : Resolution) (t : Typing)

theorem Resolution.resolutions_rename (i : Ident) :
    (r.rename ρ).resolutions[(i.rename ρ).id]? = r.resolutions[i.id]? := rfl

theorem Resolution.kindOf?_ident_rename (i : Ident) :
    (r.rename ρ).kindOf? (i.rename ρ).id = r.kindOf? i.id := r.kindOf?_rename ρ i.id

theorem checkInt_rename (spelling : String) (span : Span) :
    checkInt spelling span (t.rename ρ) = (checkInt spelling span t).rename ρ := by
  have hreject := t.reject_rename ρ (.literalOutOfRange spelling) span
  unfold checkInt
  cases literalValue? spelling with
  | none => exact hreject
  | some value =>
    dsimp only
    split
    · rfl
    · exact hreject

theorem checkChar_rename (value : Char) (span : Span) :
    checkChar value span (t.rename ρ) = (checkChar value span t).rename ρ := by
  unfold checkChar
  split
  · rfl
  · exact t.reject_rename ρ (.literalOutOfRange _) span

theorem checkValue_rename (ident : Ident) :
    checkValue (r.rename ρ) (ident.rename ρ) (t.rename ρ) = (checkValue r ident t).rename ρ := by
  have hreject := fun cause => t.reject_rename ρ cause ident.span
  unfold checkValue
  rw [r.kindOf?_ident_rename, r.resolutions_rename]
  cases r.resolutions[ident.id]? with
  | none => rfl
  | some symbol =>
    have htype : (t.rename ρ).symbolTypes[symbol]? = t.symbolTypes[symbol]? := rfl
    dsimp only
    rw [htype]
    cases t.symbolTypes[symbol]? with
    | none =>
      split
      · exact hreject (.recursiveConstant ident.name)
      · exact hreject (.recursiveConstant ident.name)
      · rfl
      · rfl
      · exact hreject (.notAValue ident.name _)
    | some type =>
      split
      · rfl
      · rfl
      · rfl
      · rfl
      · exact hreject (.notAValue ident.name _)

theorem checkVariable_rename (ident : Ident) :
    checkVariable (r.rename ρ) (ident.rename ρ) (t.rename ρ) =
      (checkVariable r ident t).map id (Typing.rename ρ) := by
  unfold checkVariable
  rw [r.kindOf?_ident_rename, r.resolutions_rename]
  cases r.resolutions[ident.id]? with
  | none => rfl
  | some symbol =>
    dsimp only
    split
    · rfl
    · rfl
    · rfl
    · exact congrArg (Prod.mk none) (t.report_rename ρ (.notAVariable ident.name) ident.span)

theorem checkBinary_rename (op : Operator) (lhs rhs : Ty) (lhsSpan rhsSpan : Span) :
    checkBinary (r.rename ρ) op lhs rhs lhsSpan rhsSpan (t.rename ρ) =
      (checkBinary r op lhs rhs lhsSpan rhsSpan t).rename ρ := by
  unfold checkBinary
  rw [r.kindOf?_rename]
  split
  · split
    · rfl
    · exact congrArg (Judged.mk _) (t.report_rename ρ (.operandMismatch op.spelling lhs rhs) _)
  · rw [t.expect_rename, Typing.expect_rename]
    rfl
  · rfl
  · rfl
  · exact t.reject_rename ρ (.notAnOperator op.spelling 2) op.span

theorem checkUnary_rename (op : Operator) (operand : Ty) (span : Span) :
    checkUnary (r.rename ρ) op operand span (t.rename ρ) =
      (checkUnary r op operand span t).rename ρ := by
  unfold checkUnary
  rw [r.kindOf?_rename]
  split
  · split
    · rfl
    · exact congrArg (Judged.mk _) (t.expect_rename ρ _ operand span)
  · rfl
  · rfl
  · exact t.reject_rename ρ (.notAnOperator op.spelling 1) op.span

theorem TypeDenoter.check_rename (d : TypeDenoter) :
    (d.rename ρ).check (r.rename ρ) (t.rename ρ) = (d.check r t).rename ρ := by
  have hkind : (r.rename ρ).kindOf? (d.rename ρ).name.id = r.kindOf? d.name.id :=
    r.kindOf?_rename ρ d.name.id
  unfold check
  rw [hkind]
  split
  · rfl
  · rfl
  · rfl
  · exact t.reject_rename ρ (.notAType d.name.name) d.span

end Leaves

/-! ## Expressions and declarations -/

theorem Expr.check_rename (r : Resolution) (e : Expr) (t : Typing) :
    (e.rename ρ).check (r.rename ρ) (t.rename ρ) = (e.check r t).rename ρ := by
  induction e generalizing t with
  | binary m op lhs rhs ihl ihr =>
    simp only [rename, check, ihl, ihr, Judged.rename, span_rename, checkBinary_rename]
    rfl
  | unary m op operand ih =>
    simp only [rename, check, ih, Judged.rename, span_rename, checkUnary_rename]
    rfl
  | int m spelling => exact congrArg (·.record m.id) (checkInt_rename ρ t spelling m.span)
  | char m value => exact congrArg (·.record m.id) (checkChar_rename ρ t value m.span)
  | name m ident => exact congrArg (·.record m.id) (checkValue_rename ρ r t ident)
  | error m => rfl

theorem Expr.checkCondition_rename (r : Resolution) (e : Expr) (t : Typing) :
    (e.rename ρ).checkCondition (r.rename ρ) (t.rename ρ) = (e.checkCondition r t).rename ρ := by
  unfold checkCondition
  rw [e.check_rename, span_rename]
  exact (e.check r t).after.expect_rename ρ .boolean (e.check r t).type e.span

theorem Decl.check_rename (r : Resolution) (d : Decl) (t : Typing) :
    (d.rename ρ).check (r.rename ρ) (t.rename ρ) = (d.check r t).rename ρ := by
  induction d generalizing t with
  | const m name value =>
    rw [rename, check, value.check_rename]
    exact Typing.recordDeclared_rename ρ _ r m.id _
  | var m name type =>
    rw [rename, check, type.check_rename]
    exact Typing.recordDeclared_rename ρ _ r m.id _
  | seq m first second ihf ihs => simp only [rename, check, ihf, ihs]
  | error m => rfl

/-! ## Calls -/

section Calls
variable (r : Resolution) (t : Typing)

theorem Param.checkAlone_rename (p : Param) :
    (p.rename ρ).checkAlone (r.rename ρ) (t.rename ρ) = (p.checkAlone r t).rename ρ := by
  cases p with
  | value m expr => exact congrArg Judged.after (expr.check_rename ρ r t)
  | reference m ident => rfl
  | blank m => rfl
  | error m => rfl

theorem Param.supplied?_rename (p : Param) : (p.rename ρ).supplied? = p.supplied? := by
  cases p <;> rfl

theorem Param.check_rename (callee : Ident) (formal : FormalParam) (p : Param) :
    (p.rename ρ).check (r.rename ρ) (callee.rename ρ) formal (t.rename ρ) =
      (p.check r callee formal t).rename ρ := by
  have hmode : (p.rename ρ).checkAlone (r.rename ρ)
      ((t.rename ρ).report (.parameterMode (callee.rename ρ).name formal.mode) (p.rename ρ).span) =
      (p.checkAlone r (t.report (.parameterMode callee.name formal.mode) p.span)).rename ρ := by
    rw [← p.checkAlone_rename, ← t.report_rename, p.span_rename]
    rfl
  obtain ⟨mode, type⟩ := formal
  cases mode with
  | value =>
    cases p with
    | value m expr =>
      change ((expr.rename ρ).check (r.rename ρ) (t.rename ρ)).after.expect _ _
        (expr.rename ρ).span = _
      rw [expr.check_rename, expr.span_rename]
      exact (expr.check r t).after.expect_rename ρ type _ expr.span
    | _ => exact hmode
  | reference =>
    cases p with
    | reference m ident =>
      unfold check
      dsimp only [rename]
      rw [checkVariable_rename]
      obtain ⟨type?, after⟩ := checkVariable r ident t
      cases type? with
      | some found => exact after.expect_rename ρ type found ident.span
      | none => rfl
    | _ => exact hmode

theorem checkArguments_rename (callee : Ident) (params : List FormalParam) (p : Param) :
    checkArguments (r.rename ρ) (callee.rename ρ) params (p.rename ρ) (t.rename ρ) =
      (checkArguments r callee params p t).rename ρ := by
  unfold checkArguments
  rw [p.supplied?_rename]
  split
  · rfl
  · split
    · exact p.check_rename ρ r t callee _
    · split
      · rfl
      · rw [p.span_rename, ← p.checkAlone_rename, ← t.report_rename]
        rfl

theorem checkCall_rename (callee : Ident) (p : Param) :
    checkCall (r.rename ρ) (callee.rename ρ) (p.rename ρ) (t.rename ρ) =
      (checkCall r callee p t).rename ρ := by
  unfold checkCall
  rw [r.kindOf?_ident_rename]
  split
  · exact checkArguments_rename ρ r t callee _ p
  · exact p.checkAlone_rename ρ r t
  · exact p.checkAlone_rename ρ r t
  · rw [← p.checkAlone_rename, ← t.report_rename]
    rfl

end Calls

/-! ## Commands -/

theorem checkAssign_rename (r : Resolution) (target : Ident) (value : Expr) (t : Typing) :
    checkAssign (r.rename ρ) (target.rename ρ) (value.rename ρ) (t.rename ρ) =
      (checkAssign r target value t).rename ρ := by
  unfold checkAssign
  rw [checkVariable_rename]
  obtain ⟨type?, after⟩ := checkVariable r target t
  dsimp only [Prod.map, id]
  rw [value.check_rename, value.span_rename]
  cases type? with
  | some type => exact (value.check r after).after.expect_rename ρ type _ value.span
  | none => rfl

theorem Command.check_rename (r : Resolution) (c : Command) (t : Typing) :
    (c.rename ρ).check (r.rename ρ) (t.rename ρ) = (c.check r t).rename ρ := by
  induction c generalizing t with
  | assign m target value => exact checkAssign_rename ρ r target value t
  | call m callee param => exact checkCall_rename ρ r t callee param
  | cond m c t e iht ihe => simp only [rename, check, c.checkCondition_rename, iht, ihe]
  | whileDo m c body rest ihb ihr => simp only [rename, check, c.checkCondition_rename, ihb, ihr]
  | doWhile m body c ih => simp only [rename, check, ih, c.checkCondition_rename]
  | letIn m decl body rest ihb ihr => simp only [rename, check, decl.check_rename, ihb, ihr]
  | seq m first second ihf ihs => simp only [rename, check, ihf, ihs]
  | blank m => rfl
  | error m => rfl

/-! ## Whole programs -/

theorem builtinTypes_rename (symbols : SymbolTable) :
    builtinTypes (symbols.rename ρ) = builtinTypes symbols := by
  have hsymbols : (symbols.rename ρ).toList = symbols.toList.map (.rename ρ) := Array.toList_map
  unfold builtinTypes
  rw [hsymbols, List.foldl_map]
  rfl

theorem typecheck_rename (r : Resolution) (p : Program) :
    typecheck (r.rename ρ) (p.rename ρ) = (typecheck r p).rename ρ := by
  have hwalk := p.command.check_rename ρ r ⟨∅, builtinTypes r.symbols, []⟩
  unfold typecheck
  rw [← hwalk]
  exact congrArg (fun types => (p.rename ρ).command.check (r.rename ρ) ⟨∅, types, []⟩)
    (builtinTypes_rename ρ r.symbols)

/-! ## Programs that are read from a text -/

section Texts
variable {text : List Char}

theorem Node.WellPlaced.isIdentifier_name {ident : Ident} (h : (Node.ident ident).WellPlaced text) :
    isIdentifier ident.name = true := by
  obtain ⟨t, ht, hkind, hspelling, -⟩ := h.token_ident
  have hidentifier : IsSpelling .identifier t.spelling := by
    simpa [hkind] using (tokenize_placed text t ht).spelled
  obtain ⟨c, tail, hlist, hspells⟩ := hidentifier
  obtain ⟨hc, htail⟩ := hspells.letters
  simpa [isIdentifier, ← hspelling, hlist, hc] using htail

theorem Node.WellPlaced.isIdentifier_operator {op : Operator}
    (h : (Node.operator op).WellPlaced text) : isIdentifier op.spelling = false := by
  obtain ⟨t, ht, hleaf, -⟩ := h.token (by simp [spelling?])
  cases hleaf with
  | operator m hkind =>
    have hoperator : IsSpelling .operator t.spelling := by
      simpa [hkind] using (tokenize_placed text t ht).spelled
    obtain ⟨c, tail, hlist, hspells⟩ := hoperator
    obtain ⟨-, -, hc, -⟩ := not_other_of_isOperatorStart hspells.operatorStart
    simp [isIdentifier, hlist, hc]

theorem operatorsApart_tree (text : List Char) :
    (Node.command (parseText text).program.command).OperatorsApart := fun _ hop =>
  ((tree_wellPlaced text).of_contains hop).isIdentifier_operator

end Texts

/-- If the names of a tree that is read from a text are changed one to one, and those of the standard
environment are not, then the names and operators are resolved to the symbols they were resolved to before,
the declarations have the symbols they had, all expressions and symbols have the types they had, and the
errors of both phases are the same ones in the same order, about the new names. -/
theorem findings_rename (text : List Char) (ρ : Renaming) :
    let program := (parseText text).program
    let resolution := resolve program
    let typing := typecheck resolution program
    let resolution' := resolve (program.rename ρ)
    let typing' := typecheck resolution' (program.rename ρ)
    (∀ ident, (Node.command program.command).Contains (.ident ident) →
      ∃ name : Identifier, ident.name = name.1 ∧ (ident.rename ρ).name = (ρ.map name).1) ∧
    resolution'.resolutions = resolution.resolutions ∧
    resolution'.declarations = resolution.declarations ∧
    resolution'.errors = resolution.errors.map (ResolveError.rename ρ) ∧
    typing'.nodeTypes = typing.nodeTypes ∧
    typing'.symbolTypes = typing.symbolTypes ∧
    typing'.errors = typing.errors.map (TypeError.rename ρ) := by
  intro program resolution typing resolution' typing'
  have hresolution : resolution' = resolution.rename ρ :=
    resolve_rename ρ program (operatorsApart_tree text)
  have htyping : typing' = typing.rename ρ := by
    change typecheck resolution' (program.rename ρ) = _
    rw [hresolution]
    exact typecheck_rename ρ resolution program
  refine ⟨fun ident hident => ?_, ?_⟩
  · have hname := ((tree_wellPlaced text).of_contains hident).isIdentifier_name
    exact ⟨⟨ident.name, hname⟩, rfl, ρ.apply_identifier ⟨ident.name, hname⟩⟩
  · rw [hresolution, htyping]
    exact ⟨rfl, rfl, rfl, rfl, rfl, rfl⟩

/-- Two names change places, and so they do in the error that is about one of them. -/
theorem findings_rename_swap :
    let program := (parseText "let var a Char in a = b endlet pass".toList).program
    let ρ := Renaming.swap ⟨"a", by decide⟩ ⟨"b", by decide⟩ (by decide) (by decide)
    (resolve program).errors = [⟨.undefined "b", ⟨22, 23⟩⟩] ∧
      (resolve (program.rename ρ)).errors = [⟨.undefined "a", ⟨22, 23⟩⟩] := by
  intro program ρ
  have herrors : (resolve program).errors = [⟨.undefined "b", ⟨22, 23⟩⟩] := by decide +kernel
  refine ⟨herrors, ?_⟩
  rw [(findings_rename _ ρ).2.2.2.1, herrors]
  decide +kernel

end TriLang
