import TriLang.Typing.Checker
import TriLang.Proofs.Lexing.Reading
import TriLang.Proofs.Parsing.Placement
import TriLang.Proofs.Scoping.Placement

/-! # Type checking does not look at places

Of a state of checking, `unspanned` changes only the spans of its errors. What is checked are trees without
spans against a resolution without spans, and each function of the checker then gives what it gives
otherwise, but for those spans. A whole program comes out as `typecheck_unspanned`.

The parser and the resolution do not look at places either. So everything that is found out about a program is
a function of the kinds and spellings of its tokens, up to spans (`tokens_determine_findings`). Of an error
its cause stays, from which its kind, its message and its suggestion are made. -/
namespace TriLang
set_option autoImplicit false

def TypeError.unspanned (e : TypeError) : TypeError := ⟨e.cause, default⟩

def Typing.unspanned (t : Typing) : Typing := { t with errors := t.errors.map TypeError.unspanned }

def Judged.unspanned (j : Judged) : Judged := ⟨j.type, j.after.unspanned⟩

/-! ## Recording -/

section Recording
variable (t : Typing)

theorem Typing.report_unspanned (cause : TypeError.Cause) (span : Span) :
    t.unspanned.report cause default = (t.report cause span).unspanned := by
  simp [report, unspanned, TypeError.unspanned]

theorem Typing.reject_unspanned (cause : TypeError.Cause) (span : Span) :
    t.unspanned.reject cause default = (t.reject cause span).unspanned := by
  rw [reject, t.report_unspanned cause span]
  rfl

theorem Typing.recordDeclared_unspanned (r : Resolution) (decl : Nat) (type : Ty) :
    t.unspanned.recordDeclared r.unspanned decl type = (t.recordDeclared r decl type).unspanned := by
  have hsymbol : r.unspanned.declarations[decl]? = r.declarations[decl]? := rfl
  unfold recordDeclared
  rw [hsymbol]
  cases r.declarations[decl]? with
  | some symbol => rfl
  | none => rfl

theorem Typing.expect_unspanned (expected found : Ty) (span : Span) :
    t.unspanned.expect expected found default = (t.expect expected found span).unspanned := by
  unfold expect
  by_cases h : expected = .error ∨ found = .error ∨ expected = found
  · rw [if_pos h, if_pos h]
  · rw [if_neg h, if_neg h, t.report_unspanned]

end Recording

/-! ## Looking at trees without spans -/

section Names
variable (r : Resolution)

theorem Resolution.resolutions_ident_unspanned (i : Ident) :
    r.unspanned.resolutions[(i.mapMarks .unspanned).id]? = r.resolutions[i.id]? := rfl

theorem Resolution.kindOf?_ident_unspanned (i : Ident) :
    r.unspanned.kindOf? (i.mapMarks .unspanned).id = r.kindOf? i.id := r.kindOf?_unspanned i.id

theorem Resolution.kindOf?_operator_unspanned (op : Operator) :
    r.unspanned.kindOf? (op.mapMarks .unspanned).id = r.kindOf? op.id := r.kindOf?_unspanned op.id

end Names

theorem Expr.span_unspanned (e : Expr) : (e.mapMarks .unspanned).span = default := by
  cases e <;> rfl

theorem Param.span_unspanned (p : Param) : (p.mapMarks .unspanned).span = default := by
  cases p <;> rfl

/-! ## Literals, names and operators -/

section Leaves
variable (r : Resolution) (t : Typing)

theorem checkInt_unspanned (spelling : String) (span : Span) :
    checkInt spelling default t.unspanned = (checkInt spelling span t).unspanned := by
  unfold checkInt
  rw [t.reject_unspanned (.literalOutOfRange spelling) span]
  cases literalValue? spelling with
  | none => rfl
  | some value => dsimp only; split <;> rfl

theorem checkChar_unspanned (value : Char) (span : Span) :
    checkChar value default t.unspanned = (checkChar value span t).unspanned := by
  unfold checkChar
  rw [t.reject_unspanned _ span]
  split <;> rfl

theorem checkValue_unspanned (ident : Ident) :
    checkValue r.unspanned (ident.mapMarks .unspanned) t.unspanned =
      (checkValue r ident t).unspanned := by
  have hreject := fun cause => t.reject_unspanned cause ident.span
  unfold checkValue
  rw [r.kindOf?_ident_unspanned, r.resolutions_ident_unspanned]
  cases r.resolutions[ident.id]? with
  | none => rfl
  | some symbol =>
    have htype : t.unspanned.symbolTypes[symbol]? = t.symbolTypes[symbol]? := rfl
    dsimp only
    rw [htype]
    cases t.symbolTypes[symbol]? with
    | none =>
      split
      · exact hreject _
      · exact hreject _
      · rfl
      · rfl
      · exact hreject _
    | some type =>
      split
      · rfl
      · rfl
      · rfl
      · rfl
      · exact hreject _

theorem checkVariable_unspanned (ident : Ident) :
    checkVariable r.unspanned (ident.mapMarks .unspanned) t.unspanned =
      (checkVariable r ident t).map id Typing.unspanned := by
  unfold checkVariable
  rw [r.kindOf?_ident_unspanned, r.resolutions_ident_unspanned]
  cases r.resolutions[ident.id]? with
  | none => rfl
  | some symbol =>
    dsimp only
    split
    · rfl
    · rfl
    · rfl
    · exact congrArg (Prod.mk none) (t.report_unspanned _ ident.span)

theorem checkBinary_unspanned (op : Operator) (lhs rhs : Ty) (lhsSpan rhsSpan : Span) :
    checkBinary r.unspanned (op.mapMarks .unspanned) lhs rhs default default t.unspanned =
      (checkBinary r op lhs rhs lhsSpan rhsSpan t).unspanned := by
  unfold checkBinary
  rw [r.kindOf?_operator_unspanned]
  split
  · split
    · rfl
    · exact congrArg (Judged.mk _) (t.report_unspanned _ (lhsSpan.join rhsSpan))
  · rw [t.expect_unspanned _ lhs lhsSpan, Typing.expect_unspanned _ _ rhs rhsSpan]
    rfl
  · rfl
  · rfl
  · exact t.reject_unspanned _ op.span

theorem checkUnary_unspanned (op : Operator) (operand : Ty) (span : Span) :
    checkUnary r.unspanned (op.mapMarks .unspanned) operand default t.unspanned =
      (checkUnary r op operand span t).unspanned := by
  unfold checkUnary
  rw [r.kindOf?_operator_unspanned]
  split
  · split
    · rfl
    · exact congrArg (Judged.mk _) (t.expect_unspanned _ operand span)
  · rfl
  · rfl
  · exact t.reject_unspanned _ op.span

theorem TypeDenoter.check_unspanned (d : TypeDenoter) :
    (d.mapMarks .unspanned).check r.unspanned t.unspanned = (d.check r t).unspanned := by
  have hkind : r.unspanned.kindOf? (d.mapMarks .unspanned).name.id = r.kindOf? d.name.id :=
    r.kindOf?_unspanned d.name.id
  unfold check
  rw [hkind]
  split
  · rfl
  · rfl
  · rfl
  · exact t.reject_unspanned _ d.span

end Leaves

/-! ## Expressions and declarations -/

theorem Expr.check_unspanned (r : Resolution) (e : Expr) (t : Typing) :
    (e.mapMarks .unspanned).check r.unspanned t.unspanned = (e.check r t).unspanned := by
  induction e generalizing t with
  | binary m op lhs rhs ihl ihr =>
    have hop := checkBinary_unspanned r (rhs.check r (lhs.check r t).after).after op
      (lhs.check r t).type (rhs.check r (lhs.check r t).after).type lhs.span rhs.span
    simp only [mapMarks, check, ihl, ihr, Judged.unspanned, span_unspanned, hop]
    rfl
  | unary m op operand ih =>
    have hop := checkUnary_unspanned r (operand.check r t).after op (operand.check r t).type
      operand.span
    simp only [mapMarks, check, ih, Judged.unspanned, span_unspanned, hop]
    rfl
  | int m spelling => exact congrArg (·.record m.id) (checkInt_unspanned t spelling m.span)
  | char m value => exact congrArg (·.record m.id) (checkChar_unspanned t value m.span)
  | name m ident => exact congrArg (·.record m.id) (checkValue_unspanned r t ident)
  | error m => rfl

theorem Expr.checkCondition_unspanned (r : Resolution) (e : Expr) (t : Typing) :
    (e.mapMarks .unspanned).checkCondition r.unspanned t.unspanned =
      (e.checkCondition r t).unspanned := by
  have hexpect := (e.check r t).after.expect_unspanned .boolean (e.check r t).type e.span
  unfold checkCondition
  rw [e.check_unspanned, span_unspanned]
  exact hexpect

theorem Decl.check_unspanned (r : Resolution) (d : Decl) (t : Typing) :
    (d.mapMarks .unspanned).check r.unspanned t.unspanned = (d.check r t).unspanned := by
  induction d generalizing t with
  | const m name value =>
    rw [mapMarks, check, value.check_unspanned]
    exact Typing.recordDeclared_unspanned _ r m.id _
  | var m name type =>
    rw [mapMarks, check, type.check_unspanned]
    exact Typing.recordDeclared_unspanned _ r m.id _
  | seq m first second ihf ihs => simp only [mapMarks, check, ihf, ihs]
  | error m => rfl

/-! ## Calls -/

section Calls
variable (r : Resolution) (t : Typing)

theorem Param.checkAlone_unspanned (p : Param) :
    (p.mapMarks .unspanned).checkAlone r.unspanned t.unspanned = (p.checkAlone r t).unspanned := by
  cases p with
  | value m expr => exact congrArg Judged.after (expr.check_unspanned r t)
  | reference m ident => rfl
  | blank m => rfl
  | error m => rfl

theorem Param.supplied?_unspanned (p : Param) : (p.mapMarks .unspanned).supplied? = p.supplied? := by
  cases p <;> rfl

theorem Param.check_unspanned (callee : Ident) (formal : FormalParam) (p : Param) :
    (p.mapMarks .unspanned).check r.unspanned (callee.mapMarks .unspanned) formal t.unspanned =
      (p.check r callee formal t).unspanned := by
  have hmode : (p.mapMarks .unspanned).checkAlone r.unspanned
      (t.unspanned.report (.parameterMode callee.name formal.mode) (p.mapMarks .unspanned).span) =
      (p.checkAlone r (t.report (.parameterMode callee.name formal.mode) p.span)).unspanned := by
    rw [p.span_unspanned, t.report_unspanned _ p.span, p.checkAlone_unspanned]
  obtain ⟨mode, type⟩ := formal
  cases mode with
  | value =>
    cases p with
    | value m expr =>
      change ((expr.mapMarks .unspanned).check r.unspanned t.unspanned).after.expect _ _
        (expr.mapMarks .unspanned).span = _
      rw [expr.check_unspanned, expr.span_unspanned]
      exact (expr.check r t).after.expect_unspanned type _ expr.span
    | _ => exact hmode
  | reference =>
    cases p with
    | reference m ident =>
      unfold check
      dsimp only [mapMarks]
      rw [checkVariable_unspanned]
      obtain ⟨type?, after⟩ := checkVariable r ident t
      cases type? with
      | some found => exact after.expect_unspanned type found ident.span
      | none => rfl
    | _ => exact hmode

theorem checkArguments_unspanned (callee : Ident) (params : List FormalParam) (p : Param) :
    checkArguments r.unspanned (callee.mapMarks .unspanned) params (p.mapMarks .unspanned)
      t.unspanned = (checkArguments r callee params p t).unspanned := by
  unfold checkArguments
  rw [p.supplied?_unspanned]
  split
  · rfl
  · split
    · exact p.check_unspanned r t callee _
    · split
      · rfl
      · rw [p.span_unspanned, ← p.checkAlone_unspanned, ← t.report_unspanned]
        rfl

theorem checkCall_unspanned (callee : Ident) (p : Param) :
    checkCall r.unspanned (callee.mapMarks .unspanned) (p.mapMarks .unspanned) t.unspanned =
      (checkCall r callee p t).unspanned := by
  unfold checkCall
  rw [r.kindOf?_ident_unspanned]
  split
  · exact checkArguments_unspanned r t callee _ p
  · exact p.checkAlone_unspanned r t
  · exact p.checkAlone_unspanned r t
  · rw [← p.checkAlone_unspanned, ← t.report_unspanned]
    rfl

end Calls

/-! ## Commands -/

theorem checkAssign_unspanned (r : Resolution) (target : Ident) (value : Expr) (t : Typing) :
    checkAssign r.unspanned (target.mapMarks .unspanned) (value.mapMarks .unspanned) t.unspanned =
      (checkAssign r target value t).unspanned := by
  unfold checkAssign
  rw [checkVariable_unspanned]
  obtain ⟨type?, after⟩ := checkVariable r target t
  dsimp only [Prod.map, id]
  rw [value.check_unspanned, value.span_unspanned]
  cases type? with
  | some type => exact (value.check r after).after.expect_unspanned type _ value.span
  | none => rfl

theorem Command.check_unspanned (r : Resolution) (c : Command) (t : Typing) :
    (c.mapMarks .unspanned).check r.unspanned t.unspanned = (c.check r t).unspanned := by
  induction c generalizing t with
  | assign m target value => exact checkAssign_unspanned r target value t
  | call m callee param => exact checkCall_unspanned r t callee param
  | cond m c t e iht ihe => simp only [mapMarks, check, c.checkCondition_unspanned, iht, ihe]
  | whileDo m c body rest ihb ihr =>
    simp only [mapMarks, check, c.checkCondition_unspanned, ihb, ihr]
  | doWhile m body c ih => simp only [mapMarks, check, ih, c.checkCondition_unspanned]
  | letIn m decl body rest ihb ihr => simp only [mapMarks, check, decl.check_unspanned, ihb, ihr]
  | seq m first second ihf ihs => simp only [mapMarks, check, ihf, ihs]
  | blank m => rfl
  | error m => rfl

/-! ## Whole programs -/

theorem builtinTypes_unspanned (symbols : SymbolTable) :
    builtinTypes symbols.unspanned = builtinTypes symbols := by
  unfold builtinTypes
  rw [symbols.toList_unspanned, List.foldl_map]
  rfl

theorem typecheck_unspanned (r : Resolution) (p : Program) :
    typecheck r.unspanned p.unspanned = (typecheck r p).unspanned := by
  have hwalk := p.command.check_unspanned r ⟨∅, builtinTypes r.symbols, []⟩
  unfold typecheck
  rw [← hwalk]
  exact congrArg (fun types => p.command.unspanned.check r.unspanned ⟨∅, types, []⟩)
    (builtinTypes_unspanned r.symbols)

/-! ## The whole front end -/

/-- The token with this kind and spelling that stands nowhere in particular. -/
def Token.ofView (v : Token.Kind × String) : Token := ⟨v.1, v.2, default, default⟩

theorem Token.ofView_comp_view : Token.ofView ∘ Token.view = Token.unplaced := rfl

/-- Two texts whose tokens agree in kind and spelling are read as the same program, with the same errors,
its names are resolved alike, with the same errors, and it gets the same types, with the same errors: all
that differs is spans. -/
theorem tokens_determine_findings (text₁ text₂ : List Char)
    (h : (tokenize text₁).tokens.map Token.view = (tokenize text₂).tokens.map Token.view) :
    let parsed₁ := parseText text₁
    let parsed₂ := parseText text₂
    let resolved₁ := resolve parsed₁.program
    let resolved₂ := resolve parsed₂.program
    parsed₁.unspanned = parsed₂.unspanned ∧ resolved₁.unspanned = resolved₂.unspanned ∧
      (typecheck resolved₁ parsed₁.program).unspanned =
        (typecheck resolved₂ parsed₂.program).unspanned := by
  intro parsed₁ parsed₂ resolved₁ resolved₂
  have hunplaced : (tokenize text₁).tokens.map Token.unplaced =
      (tokenize text₂).tokens.map Token.unplaced := by
    have hview := congrArg (List.map Token.ofView) h
    rwa [List.map_map, List.map_map, Token.ofView_comp_view] at hview
  have hparsed : parsed₁.unspanned = parsed₂.unspanned := by
    change (parse _).unspanned = (parse _).unspanned
    rw [← parse_unplaced, ← parse_unplaced, hunplaced]
  have hprogram : parsed₁.program.unspanned = parsed₂.program.unspanned :=
    congrArg ParseResult.program hparsed
  have hresolved : resolved₁.unspanned = resolved₂.unspanned := by
    change (resolve _).unspanned = (resolve _).unspanned
    rw [← resolve_unspanned, ← resolve_unspanned, hprogram]
  refine ⟨hparsed, hresolved, ?_⟩
  rw [← typecheck_unspanned, ← typecheck_unspanned, hresolved, hprogram]

theorem tokens_determine_findings_comment :
    let text₁ := "let const a ~ 1; var a Integer in a = b + 'c' endlet; if 1 then".toList
    let text₂ := "! a\nlet const a~1;var a Integer in\n\ta = b+'c' endlet;\n\nif 1 then".toList
    let parsed₁ := parseText text₁
    let parsed₂ := parseText text₂
    let resolved₁ := resolve parsed₁.program
    let resolved₂ := resolve parsed₂.program
    (tokenize text₁).tokens.map Token.view = (tokenize text₂).tokens.map Token.view ∧
      parsed₁.unspanned = parsed₂.unspanned ∧ resolved₁.unspanned = resolved₂.unspanned ∧
      (typecheck resolved₁ parsed₁.program).unspanned =
        (typecheck resolved₂ parsed₂.program).unspanned := by
  intro text₁ text₂ parsed₁ parsed₂ resolved₁ resolved₂
  have hview : (tokenize text₁).tokens.map Token.view = (tokenize text₂).tokens.map Token.view := by
    decide +kernel
  exact ⟨hview, tokens_determine_findings text₁ text₂ hview⟩

end TriLang
