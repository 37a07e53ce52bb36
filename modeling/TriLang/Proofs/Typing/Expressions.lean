import TriLang.Proofs.Typing.Agreement

/-! # Expressions are checked as the rules say

If an expression is accepted, the type that is found for it, and for every expression in it, is the one the
rules give (`Expr.check_sound`), and an expression that has a type by the rules is accepted with that type
(`Expr.check_complete`). Of the declarations that are visible some have been checked; the others, in fact
at most the constant whose value is checked, must be avoided. -/
namespace TriLang
set_option autoImplicit false

/-! ## Reports -/

@[simp] theorem Typing.errors_report_ne (t : Typing) (cause : TypeError.Cause) (span : Span) :
    (t.report cause span).errors ≠ [] := by simp [report]

@[simp] theorem Typing.errors_reject_ne (t : Typing) (cause : TypeError.Cause) (span : Span) :
    (t.reject cause span).after.errors ≠ [] := t.errors_report_ne cause span

/-- Types that are not a stand-in for what is wrong have to be equal. -/
theorem Typing.expect_accepted {t : Typing} {expected found : Ty} {span : Span}
    (he : expected ≠ .error) (hf : found ≠ .error) :
    (t.expect expected found span).errors = [] ↔ t.errors = [] ∧ expected = found := by
  unfold expect
  by_cases h : expected = found
  · simp [h]
  · simp [he, hf, h]

@[simp] theorem Typing.expect_self (t : Typing) (type : Ty) (span : Span) :
    t.expect type type span = t := by simp [expect]

/-! ## Literals -/

section
variable {r : Resolution} {decls : List Decl} {t : Typing} {m : Mark}

theorem checkInt_sound {spelling : String} {span : Span}
    (h : (checkInt spelling span t).after.errors = []) :
    HasType r decls (.int m spelling) (checkInt spelling span t).type ∧
      (checkInt spelling span t).type.isPlain = true := by
  unfold checkInt at h ⊢
  cases hvalue : literalValue? spelling with
  | none => simp [hvalue] at h
  | some value =>
    by_cases hrange : minInt ≤ value ∧ value ≤ maxInt
    · simp only [if_pos hrange]
      exact ⟨.int hvalue hrange.1 hrange.2, rfl⟩
    · simp [hvalue, hrange] at h

theorem checkInt_complete {spelling : String} {value : Int} {span : Span}
    (hvalue : literalValue? spelling = some value) (hmin : minInt ≤ value) (hmax : value ≤ maxInt) :
    checkInt spelling span t = ⟨.integer, t⟩ := by
  simp [checkInt, hvalue, hmin, hmax]

theorem checkChar_sound {value : Char} {span : Span}
    (h : (checkChar value span t).after.errors = []) :
    HasType r decls (.char m value) (checkChar value span t).type ∧
      (checkChar value span t).type.isPlain = true := by
  unfold checkChar at h ⊢
  by_cases hmax : (value.toNat : Int) ≤ maxInt
  · simp only [if_pos hmax]
    exact ⟨.char hmax, rfl⟩
  · simp [hmax] at h

theorem checkChar_complete {value : Char} {span : Span} (hmax : (value.toNat : Int) ≤ maxInt) :
    checkChar value span t = ⟨.char, t⟩ := if_pos hmax

end

/-! ## Names and operators -/

/-- Every visible declaration has been visited or has to be avoided. -/
structure Surrounded (env : Env) (visited avoid : List Nat) : Prop where
  plain : ∀ d, env.Visible d → d.kind.isPlain = true
  reached : ∀ d, env.Visible d → d.node ∈ visited ∨ d.node ∈ avoid

section
variable {r : Resolution} {decls : List Decl} {env : Env} {visited avoid : List Nat}
  {symbol : Symbol} {t : Typing}

theorem Resolution.Stands.isPlain {node : Nat} (h : r.Stands env node symbol)
    (henv : Surrounded env visited avoid) : symbol.kind.isPlain = true := by
  rcases h.origin with ⟨d, hd, hkind, -⟩ | ⟨-, entry, hentry, hkind⟩
  · rw [hkind]
    exact henv.plain d hd
  · rw [hkind]
    exact isPlain_standardEnvironment entry hentry

theorem checkValue_sound {ident : Ident} (hs : r.Stands env ident.id symbol)
    (henv : Surrounded env visited avoid) (ht : t.Agrees r decls visited)
    (h : (checkValue r ident t).after.errors = []) :
    (checkValue r ident t).type.isPlain = true ∧
      SymbolType r decls symbol (checkValue r ident t).type ∧
      ∀ node, symbol.decl? = some node → node ∈ visited := by
  have hplain := hs.isPlain henv
  unfold checkValue at h ⊢
  simp only [hs.resolved, Resolution.kindOf?_eq hs.symbolOf?_eq] at h ⊢
  cases hkind : symbol.kind with
  | const builtin? =>
    simp only [hkind] at h ⊢
    cases htype : t.symbolTypes[symbol.id]? with
    | some type => exact ht.sound _ _ _ hs.entry htype
    | none => simp [htype] at h
  | var =>
    simp only [hkind] at h ⊢
    cases htype : t.symbolTypes[symbol.id]? with
    | some type => exact ht.sound _ _ _ hs.entry htype
    | none => simp [htype] at h
  | unknown => simp [hkind, Symbol.Kind.isPlain] at hplain
  | _ => simp [hkind] at h

/-- A symbol that need not be avoided has the type that the rules give it. -/
theorem Typing.Agrees.symbolTypes_eq (ht : t.Agrees r decls visited) (hdecls : Apart decls)
    {ident : Ident} (hs : r.Stands env ident.id symbol) (henv : Surrounded env visited avoid) {type : Ty}
    (htype : SymbolType r decls symbol type) (havoid : ∀ n, symbol.decl? = some n → n ∉ avoid) :
    t.symbolTypes[symbol.id]? = some type := by
  have hdeclared : ∀ n, symbol.decl? = some n → t.symbolTypes[symbol.id]? = some type := by
    intro n hn
    have hknown : ∃ type', t.symbolTypes[symbol.id]? = some type' := by
      rcases hs.origin with ⟨d, hd, -, hdecl, hsymbol⟩ | ⟨hdecl, -⟩
      · have hvisited := (henv.reached d hd).resolve_right (havoid _ hdecl)
        exact ht.declared _ hvisited _ hsymbol
      · simp [hdecl] at hn
    obtain ⟨type', htype'⟩ := hknown
    have hsound := (ht.sound _ _ _ hs.entry htype').2.1
    have hsame := HasType.unique hdecls (htype.hasType (m := default) hs.symbolOf?_eq)
      (hsound.hasType hs.symbolOf?_eq)
    rw [htype', hsame]
  cases htype with
  | builtin hkind => exact ht.builtin _ _ _ hs.entry hkind
  | const _ hdecl => exact hdeclared _ hdecl
  | var _ hdecl => exact hdeclared _ hdecl

theorem SymbolType.typedSymbol?_eq {type : Ty} {ident : Ident} (h : SymbolType r decls symbol type)
    (hs : r.Stands env ident.id symbol) : r.typedSymbol? ident = some symbol.id := by
  have hkindOf := Resolution.kindOf?_eq hs.symbolOf?_eq
  refine Resolution.typedSymbol?_eq_some.2 ⟨hs.resolved, ?_⟩
  cases h with
  | builtin hkind => exact .inl ⟨_, by rw [hkindOf, hkind]⟩
  | const hkind => exact .inl ⟨_, by rw [hkindOf, hkind]⟩
  | var hkind => exact .inr (by rw [hkindOf, hkind])

theorem checkValue_complete (hdecls : Apart decls) {ident : Ident}
    (hs : r.Stands env ident.id symbol) (henv : Surrounded env visited avoid)
    (ht : t.Agrees r decls visited) {type : Ty} (htype : SymbolType r decls symbol type)
    (havoid : ∀ node, symbol.decl? = some node → node ∉ avoid) :
    checkValue r ident t = ⟨type, t⟩ :=
  checkValue_typed (htype.typedSymbol?_eq hs) (ht.symbolTypes_eq hdecls hs henv htype havoid)

theorem checkUnary_sound {op : Operator} (hs : r.Stands env op.id symbol)
    (henv : Surrounded env visited avoid) {operand : Ty} (hoperand : operand.isPlain = true)
    {span : Span} (h : (checkUnary r op operand span t).after.errors = []) :
    (checkUnary r op operand span t).type.isPlain = true ∧ ∃ param,
      r.kindOf? op.id = some (.operator (.unary param (checkUnary r op operand span t).type)) ∧
        (param = .any ∨ param = operand) := by
  have hplain := hs.isPlain henv
  unfold checkUnary at h ⊢
  simp only [Resolution.kindOf?_eq hs.symbolOf?_eq] at h ⊢
  cases hkind : symbol.kind with
  | operator signature =>
    cases signature with
    | unary param result =>
      simp only [hkind, Symbol.Kind.isPlain, Bool.and_eq_true] at h hplain ⊢
      refine ⟨hplain.2, param, rfl, ?_⟩
      by_cases hany : param = .any
      · exact .inl hany
      · rw [if_neg hany] at h
        exact .inr ((Typing.expect_accepted (Ty.ne_error_of_isPlain_or hplain.1)
          (Ty.ne_error_of_isPlain hoperand)).1 h).2
    | binary => simp [hkind] at h
  | unknown => simp [hkind, Symbol.Kind.isPlain] at hplain
  | _ => simp [hkind] at h

theorem checkUnary_complete {op : Operator} {param operand result : Ty} {span : Span}
    (hop : r.kindOf? op.id = some (.operator (.unary param result)))
    (hparam : param = .any ∨ param = operand) :
    checkUnary r op operand span t = ⟨result, t⟩ := by
  unfold checkUnary
  rcases hparam with rfl | rfl <;> simp [hop]

theorem checkBinary_sound {op : Operator} (hs : r.Stands env op.id symbol)
    (henv : Surrounded env visited avoid) {lhs rhs : Ty} (hlhs : lhs.isPlain = true)
    (hrhs : rhs.isPlain = true) {lhsSpan rhsSpan : Span}
    (h : (checkBinary r op lhs rhs lhsSpan rhsSpan t).after.errors = []) :
    (checkBinary r op lhs rhs lhsSpan rhsSpan t).type.isPlain = true ∧ ∃ lhsParam rhsParam,
      r.kindOf? op.id = some (.operator (.binary lhsParam rhsParam
        (checkBinary r op lhs rhs lhsSpan rhsSpan t).type)) ∧
          ((lhsParam = .any ∧ lhs = rhs) ∨ (lhsParam ≠ .any ∧ lhsParam = lhs ∧ rhsParam = rhs)) := by
  have hplain := hs.isPlain henv
  have hlhs' := Ty.ne_error_of_isPlain hlhs
  have hrhs' := Ty.ne_error_of_isPlain hrhs
  unfold checkBinary at h ⊢
  simp only [Resolution.kindOf?_eq hs.symbolOf?_eq] at h ⊢
  cases hkind : symbol.kind with
  | operator signature =>
    cases signature with
    | unary => simp [hkind] at h
    | binary lhsParam rhsParam result =>
      rw [hkind, Symbol.Kind.isPlain, Bool.and_eq_true, Bool.and_eq_true] at hplain
      obtain ⟨⟨hleft, hright⟩, hresult⟩ := hplain
      by_cases hany : lhsParam = .any
      · subst hany
        simp only [hkind] at h ⊢
        by_cases hsame : lhs = rhs
        · simp only [hsame, or_true, if_true]
          exact ⟨hresult, .any, rhsParam, rfl, .inl ⟨rfl, trivial⟩⟩
        · simp [hlhs', hrhs', hsame] at h
      · simp only [hkind] at h ⊢
        rw [Typing.expect_accepted (Ty.ne_error_of_isPlain_or hright) hrhs',
          Typing.expect_accepted (Ty.ne_error_of_isPlain_or hleft) hlhs'] at h
        exact ⟨hresult, lhsParam, rhsParam, rfl, .inr ⟨hany, h.1.2, h.2⟩⟩
  | unknown => simp [hkind, Symbol.Kind.isPlain] at hplain
  | _ => simp [hkind] at h

theorem checkBinary_complete {op : Operator} {lhs rhs result : Ty} {lhsSpan rhsSpan : Span}
    (hop : r.kindOf? op.id = some (.operator (.binary lhs rhs result))) (hany : lhs ≠ .any) :
    checkBinary r op lhs rhs lhsSpan rhsSpan t = ⟨result, t⟩ := by
  unfold checkBinary
  simp [hop]

theorem checkBinary_agreeing {op : Operator} {param operand result : Ty} {lhsSpan rhsSpan : Span}
    (hop : r.kindOf? op.id = some (.operator (.binary .any param result))) :
    checkBinary r op operand operand lhsSpan rhsSpan t = ⟨result, t⟩ := by
  unfold checkBinary
  simp [hop]

end

/-! ## Recorded types -/

/-- The recorded type of the expression is one of values, and the one that the rules give. -/
def Expr.Recorded (r : Resolution) (decls : List Decl) (t : Typing) (e : Expr) : Prop :=
  ∃ type, t.nodeTypes[e.mark.id]? = some type ∧ HasType r decls e type ∧ type.isPlain = true

theorem Expr.Recorded.grows {r : Resolution} {decls : List Decl} {t u : Typing} {e : Expr}
    {nodes : List Nat} (h : e.Recorded r decls t) (hg : Typing.Grows nodes t u)
    (he : e.mark.id ∉ nodes) : e.Recorded r decls u := by
  obtain ⟨type, hnode, htype⟩ := h
  exact ⟨type, by rw [hg.nodeTypes _ he, hnode], htype⟩

theorem Expr.node_mem_of_expressions {e x : Expr} (h : x ∈ e.expressions) : x.mark.id ∈ e.ids := by
  induction e with
  | binary m op lhs rhs ihl ihr =>
    rcases List.mem_append.1 h with h | h
    · simp [ihl h]
    rcases List.mem_append.1 h with h | h
    · simp [ihr h]
    · obtain rfl := List.mem_singleton.1 h
      simp [mark]
  | unary m op operand ih =>
    rcases List.mem_append.1 h with h | h
    · simp [ih h]
    · obtain rfl := List.mem_singleton.1 h
      simp [mark]
  | _ =>
    obtain rfl := List.mem_singleton.1 h
    simp [mark, ids]

/-! ## Soundness -/

/-- The expression was judged as the rules say, and so was every expression in it. -/
structure Expr.Accepted (r : Resolution) (decls : List Decl) (avoid : List Nat) (e : Expr)
    (j : Judged) : Prop where
  hasType : HasType r decls e j.type
  plain : j.type.isPlain = true
  avoids : ∀ n ∈ avoid, ¬ e.Mentions r n
  recorded : ∀ x ∈ e.expressions, x.Recorded r decls j.after

variable {r : Resolution} {decls : List Decl} {env : Env} {visited avoid : List Nat}

/-- The occurrences stand for something that is known. -/
def AllStand (r : Resolution) (occurrences : List Occurrence) : Prop :=
  ∀ o ∈ occurrences, ∃ symbol, r.Stands o.env o.mark.id symbol

theorem Expr.recorded_of_record {e : Expr} {t : Typing} {type : Ty} (htype : HasType r decls e type)
    (hplain : type.isPlain = true) : e.Recorded r decls (t.recordNode e.mark.id type) :=
  ⟨type, by simp [Typing.recordNode], htype, hplain⟩

theorem Expr.check_sound (e : Expr) (hfree : e.ErrorFree) (hids : e.ids.Nodup)
    (hocc : AllStand r (e.occurrences env)) (henv : Surrounded env visited avoid)
    (hapart : ∀ n ∈ avoid, n ∉ visited) {t : Typing} (ht : t.Agrees r decls visited)
    (h : (e.check r t).after.errors = []) : e.Accepted r decls avoid (e.check r t) := by
  induction e generalizing t with
  | binary m op lhs rhs ihl ihr =>
    simp only [ids_binary, List.nodup_append, List.nodup_cons] at hids
    obtain ⟨hlids, ⟨hop, hrids, -, hm⟩, hlapart⟩ := hids
    have hright := (reports_checkBinary r op (lhs.check r t).type _ lhs.span rhs.span _).accepted h
    have hleft := (rhs.check_grows r _).accepted hright
    have ht' := ht.step hleft (lhs.check_symbolTypes r t)
    have hl := ihl hfree.1 hlids (fun o ho => hocc o (by simp [occurrences, ho])) ht hleft
    have hr := ihr hfree.2 hrids (fun o ho => hocc o (by simp [occurrences, ho])) ht' hright
    obtain ⟨symbol, hs⟩ := hocc ⟨op.toMark, op.spelling, env⟩ (by simp [occurrences])
    obtain ⟨hplain, lhsParam, rhsParam, hkind, hparams⟩ :=
      checkBinary_sound hs henv hl.plain hr.plain h
    have htype : HasType r decls (.binary m op lhs rhs) ((binary m op lhs rhs).check r t).type := by
      rcases hparams with ⟨rfl, hsame⟩ | ⟨hany, rfl, rfl⟩
      · exact .agreeing hkind hl.hasType (hsame ▸ hr.hasType)
      · exact .binary hkind hany hl.hasType hr.hasType
    have hgrows := (reports_checkBinary r op (lhs.check r t).type (rhs.check r (lhs.check r t).after).type
      lhs.span rhs.span (rhs.check r (lhs.check r t).after).after).grows_record m.id
    refine ⟨htype, hplain, fun n hn hmention => ?_, fun x hx => ?_⟩
    · exact hmention.elim (hl.avoids n hn) (hr.avoids n hn)
    · rcases List.mem_append.1 hx with hx | hx
      · have hnode : ∀ n ∈ op.id :: (rhs.ids ++ [m.id]), x.mark.id ≠ n :=
          hlapart _ (node_mem_of_expressions hx)
        have hrhs : x.mark.id ∉ rhs.ids := fun hin => hnode _ (by simp [hin]) rfl
        have hown : x.mark.id ∉ [m.id] := fun hin => hnode _ (by simp [hin]) rfl
        exact ((hl.recorded x hx).grows (rhs.check_grows r _) hrhs).grows hgrows hown
      rcases List.mem_append.1 hx with hx | hx
      · have hown : x.mark.id ∉ [m.id] := fun hin => hm _ (node_mem_of_expressions hx) _ hin rfl
        exact (hr.recorded x hx).grows hgrows hown
      · obtain rfl := List.mem_singleton.1 hx
        exact recorded_of_record htype hplain
  | unary m op operand ih =>
    simp only [ids_unary, List.nodup_append, List.nodup_cons] at hids
    obtain ⟨hop, hoids, -, hm⟩ := hids
    have hinner := (reports_checkUnary r op (operand.check r t).type operand.span _).accepted h
    have ho := ih hfree hoids (fun o ho => hocc o (by simp [occurrences, ho])) ht hinner
    obtain ⟨symbol, hs⟩ := hocc ⟨op.toMark, op.spelling, env⟩ (by simp [occurrences])
    obtain ⟨hplain, param, hkind, hparam⟩ := checkUnary_sound hs henv ho.plain h
    have htype : HasType r decls (.unary m op operand) ((unary m op operand).check r t).type :=
      .unary hkind ho.hasType hparam
    have hgrows := (reports_checkUnary r op (operand.check r t).type operand.span
      (operand.check r t).after).grows_record m.id
    refine ⟨htype, hplain, ho.avoids, fun x hx => ?_⟩
    rcases List.mem_append.1 hx with hx | hx
    · have hown : x.mark.id ∉ [m.id] := fun hin => hm _ (node_mem_of_expressions hx) _ hin rfl
      exact (ho.recorded x hx).grows hgrows hown
    · obtain rfl := List.mem_singleton.1 hx
      exact recorded_of_record htype hplain
  | int m spelling =>
    obtain ⟨htype, hplain⟩ := checkInt_sound h
    refine ⟨htype, hplain, fun n hn => id, fun x hx => ?_⟩
    obtain rfl := List.mem_singleton.1 hx
    exact recorded_of_record htype hplain
  | char m value =>
    obtain ⟨htype, hplain⟩ := checkChar_sound h
    refine ⟨htype, hplain, fun n hn => id, fun x hx => ?_⟩
    obtain rfl := List.mem_singleton.1 hx
    exact recorded_of_record htype hplain
  | name m ident =>
    obtain ⟨symbol, hs⟩ := hocc ⟨ident.toMark, ident.name, env⟩ (by simp [occurrences])
    obtain ⟨hplain, hsymbol, hvisited⟩ := checkValue_sound hs henv ht h
    have htype : HasType r decls (.name m ident) ((name m ident).check r t).type :=
      hsymbol.hasType hs.symbolOf?_eq
    refine ⟨htype, hplain, fun n hn hmention => ?_, fun x hx => ?_⟩
    · obtain ⟨symbol', hsymbol', hdecl⟩ := hmention
      obtain rfl := Option.some.inj (hs.symbolOf?_eq.symm.trans hsymbol')
      exact hapart n hn (hvisited n hdecl)
    · obtain rfl := List.mem_singleton.1 hx
      exact recorded_of_record htype hplain
  | error m => exact absurd hfree id

/-! ## Completeness -/

theorem Expr.check_complete (hdecls : Apart decls) (e : Expr)
    (hocc : AllStand r (e.occurrences env)) (henv : Surrounded env visited avoid) {t : Typing}
    (ht : t.Agrees r decls visited) {type : Ty} (h : HasType r decls e type)
    (havoid : ∀ n ∈ avoid, ¬ e.Mentions r n) :
    (e.check r t).after.errors = [] ∧ (e.check r t).type = type := by
  induction e generalizing t type with
  | binary m op lhs rhs ihl ihr =>
    have hoccl : AllStand r (lhs.occurrences env) := fun o ho => hocc o (by simp [occurrences, ho])
    have hoccr : AllStand r (rhs.occurrences env) := fun o ho => hocc o (by simp [occurrences, ho])
    have havoidl : ∀ n ∈ avoid, ¬ lhs.Mentions r n := fun n hn hin => havoid n hn (.inl hin)
    have havoidr : ∀ n ∈ avoid, ¬ rhs.Mentions r n := fun n hn hin => havoid n hn (.inr hin)
    cases h with
    | binary hop hany hlhs hrhs =>
      obtain ⟨hleft, hltype⟩ := ihl hoccl ht hlhs havoidl
      obtain ⟨hright, hrtype⟩ := ihr hoccr (ht.step hleft (lhs.check_symbolTypes r t)) hrhs havoidr
      simp only [check, Judged.record, hltype, hrtype, checkBinary_complete hop hany]
      exact ⟨hright, trivial⟩
    | agreeing hop hlhs hrhs =>
      obtain ⟨hleft, hltype⟩ := ihl hoccl ht hlhs havoidl
      obtain ⟨hright, hrtype⟩ := ihr hoccr (ht.step hleft (lhs.check_symbolTypes r t)) hrhs havoidr
      simp only [check, Judged.record, hltype, hrtype, checkBinary_agreeing hop]
      exact ⟨hright, trivial⟩
  | unary m op operand ih =>
    cases h with
    | unary hop hoperand hparam =>
      obtain ⟨hinner, htype⟩ :=
        ih (fun o ho => hocc o (by simp [occurrences, ho])) ht hoperand havoid
      simp only [check, Judged.record, htype, checkUnary_complete hop hparam]
      exact ⟨hinner, trivial⟩
  | int m spelling =>
    cases h with
    | int hvalue hmin hmax =>
      simp only [check, Judged.record, checkInt_complete hvalue hmin hmax]
      exact ⟨ht.accepted, trivial⟩
  | char m value =>
    cases h with
    | char hmax =>
      simp only [check, Judged.record, checkChar_complete hmax]
      exact ⟨ht.accepted, trivial⟩
  | name m ident =>
    obtain ⟨symbol, hs⟩ := hocc ⟨ident.toMark, ident.name, env⟩ (by simp [occurrences])
    have hreached : ∀ node, symbol.decl? = some node → node ∉ avoid :=
      fun node hnode hin => havoid node hin ⟨symbol, hs.symbolOf?_eq, hnode⟩
    have hvalue := checkValue_complete hdecls hs henv ht (h.symbolType hs.symbolOf?_eq) hreached
    simp only [check, Judged.record, hvalue]
    exact ⟨ht.accepted, trivial⟩
  | error m => cases h

end TriLang
