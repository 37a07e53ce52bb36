import TriLang.Proofs.Typing.Checks

/-! # Commands are checked as the rules say

Every command, taken at its place in a program whose names are resolved, is accepted just in case it is
well typed, and then the types of its expressions are recorded (`Command.checks`). -/
namespace TriLang
set_option autoImplicit false

variable {r : Resolution} {decls : List Decl} {env : Env} {visited : List Nat} {symbol : Symbol}
  {t : Typing}

/-! ## Expressions and variables where a type is asked for -/

theorem Expr.check_agrees {e : Expr} (ht : t.Agrees r decls visited)
    (h : (e.check r t).after.errors = []) : (e.check r t).after.Agrees r decls visited :=
  ht.step h (e.check_symbolTypes r t)

/-- An expression that has to be of a type. -/
theorem Expr.checks_expect (hdecls : Apart decls) {e : Expr} (hfree : e.ErrorFree)
    (hids : e.ids.Nodup) (hocc : AllStand r (e.occurrences env)) (henv : Surrounded env visited [])
    {expected : Ty} (hexpected : expected.isPlain = true) :
    Checks r decls (fun t => (e.check r t).after.expect expected (e.check r t).type e.span) e.ids
      visited visited (HasType r decls e expected) e.expressions where
  grows t := (e.check_grows r t).andReports (Typing.reports_expect _ _ _ _)
  near _ := node_mem_of_expressions
  sound t ht h := by
    have hinner := (Typing.reports_expect _ _ _ _).accepted h
    have haccepted := e.check_sound hfree hids hocc henv (by simp) ht hinner
    have hsame := ((Typing.expect_accepted (Ty.ne_error_of_isPlain hexpected)
      (Ty.ne_error_of_isPlain haccepted.plain)).1 h).2
    rw [hsame, Typing.expect_self]
    exact ⟨haccepted.hasType, check_agrees ht hinner, haccepted.recorded⟩
  complete t ht h := by
    obtain ⟨hinner, htype⟩ := e.check_complete hdecls hocc henv ht h (by simp)
    rw [htype, Typing.expect_self, hinner]

theorem Expr.checks_condition (hdecls : Apart decls) {e : Expr} (hfree : e.ErrorFree)
    (hids : e.ids.Nodup) (hocc : AllStand r (e.occurrences env)) (henv : Surrounded env visited []) :
    Checks r decls (e.checkCondition r) e.ids visited visited (HasType r decls e .boolean)
      e.expressions :=
  checks_expect hdecls hfree hids hocc henv rfl

theorem checkVariable_sound {ident : Ident} (hs : r.Stands env ident.id symbol)
    (henv : Surrounded env visited []) (ht : t.Agrees r decls visited)
    (h : (checkVariable r ident t).2.errors = []) :
    ∃ type, checkVariable r ident t = (some type, t) ∧ type.isPlain = true ∧
      VariableType r decls ident type := by
  have hplain := hs.isPlain henv
  unfold checkVariable at h ⊢
  simp only [hs.resolved, Resolution.kindOf?_eq hs.symbolOf?_eq] at h ⊢
  cases hkind : symbol.kind with
  | var =>
    rcases hs.origin with ⟨d, hd, -, hdecl, hsymbol⟩ | ⟨-, entry, hentry, hkind'⟩
    · have hvisited := (henv.reached d hd).resolve_right (by simp)
      obtain ⟨type, htype⟩ := ht.declared _ hvisited _ hsymbol
      obtain ⟨htypePlain, hsymbolType, -⟩ := ht.sound _ _ _ hs.entry htype
      exact ⟨type, by simp [htype], htypePlain, hsymbolType.variableType hkind hs.symbolOf?_eq⟩
    · cases hentity : entry.2 <;> simp [hkind, hentity, StandardEntity.kind] at hkind'
  | unknown => simp [hkind, Symbol.Kind.isPlain] at hplain
  | _ => simp [hkind] at h

theorem checkVariable_complete (hdecls : Apart decls) {ident : Ident}
    (hs : r.Stands env ident.id symbol) (henv : Surrounded env visited [])
    (ht : t.Agrees r decls visited) {type : Ty} (h : VariableType r decls ident type) :
    checkVariable r ident t = (some type, t) := by
  have hsymbolType := h.symbolType hs.symbolOf?_eq
  have hkind : r.kindOf? ident.id = some .var := by
    obtain ⟨hsymbol, hkind, -⟩ := h
    rw [Resolution.kindOf?_eq hsymbol, hkind]
  exact checkVariable_typed (hsymbolType.typedSymbol?_eq hs) hkind
    (ht.symbolTypes_eq hdecls hs henv hsymbolType (by simp))

/-! ## Assignments and calls -/

theorem checkAssign_grows (r : Resolution) (target : Ident) (value : Expr) (t : Typing) :
    Typing.Grows value.ids (checkVariable r target t).2 (checkAssign r target value t) := by
  unfold checkAssign
  dsimp only
  split
  · exact (value.check_grows r _).andReports (Typing.reports_expect _ _ _ _)
  · exact value.check_grows r _

theorem checkAssign_checks (hdecls : Apart decls) {target : Ident} {value : Expr}
    (hfree : value.ErrorFree) (hids : value.ids.Nodup) (hs : r.Stands env target.id symbol)
    (hocc : AllStand r (value.occurrences env)) (henv : Surrounded env visited []) :
    Checks r decls (checkAssign r target value) value.ids visited visited
      (∃ type, VariableType r decls target type ∧ HasType r decls value type) value.expressions where
  grows t := (Typing.Grows.of_reports (reports_checkVariable r target t) []).append
    (checkAssign_grows r target value t)
  near _ := Expr.node_mem_of_expressions
  sound t ht h := by
    obtain ⟨type, hvariable, hplain, htype⟩ :=
      checkVariable_sound hs henv ht ((checkAssign_grows r target value t).accepted h)
    simp only [checkAssign, hvariable] at h ⊢
    obtain ⟨hvalue, hagrees, hrecorded⟩ :=
      (Expr.checks_expect hdecls hfree hids hocc henv hplain).sound t ht h
    exact ⟨⟨type, htype, hvalue⟩, hagrees, hrecorded⟩
  complete t ht h := by
    obtain ⟨type, htype, hvalue⟩ := h
    simp only [checkAssign, checkVariable_complete hdecls hs henv ht htype]
    obtain ⟨hinner, hsame⟩ := value.check_complete hdecls hocc henv ht hvalue (by simp)
    rw [hsame, Typing.expect_self, hinner]

theorem Param.checkAlone_grows (p : Param) (t : Typing) :
    Typing.Grows p.ids t (p.checkAlone r t) := by
  cases p with
  | value m expr => exact (expr.check_grows r t).mono (by simp +contextual)
  | _ => exact .refl _ t

theorem Param.node_mem_of_expressions {p : Param} {x : Expr} (h : x ∈ p.expressions) :
    x.mark.id ∈ p.ids := by
  cases p with
  | value m expr => simp [Expr.node_mem_of_expressions h]
  | _ => simp [expressions] at h

/-- A parameter that is reported before it is looked at. -/
theorem Param.checks_reported (p : Param) (cause : TypeError.Cause) (span : Span) {good : Prop}
    (hbad : ¬ good) :
    Checks r decls (fun t => p.checkAlone r (t.report cause span)) p.ids visited visited good
      p.expressions :=
  .rejected (fun t => (Typing.Grows.of_reports (t.reports_report cause span) []).append
    (p.checkAlone_grows _)) (fun _ => node_mem_of_expressions)
    (fun t h => Typing.errors_report_ne t cause span ((p.checkAlone_grows _).accepted h)) hbad

theorem Param.checks_reference (hdecls : Apart decls) {callee ident : Ident} {m : Mark} {type : Ty}
    (hs : r.Stands env ident.id symbol) (henv : Surrounded env visited [])
    (hplain : type.isPlain = true) :
    Checks r decls ((reference m ident).check r callee ⟨.reference, type⟩) (reference m ident).ids
      visited visited (VariableType r decls ident type) [] := by
  have hreports : ∀ t, Typing.Reports (checkVariable r ident t).2
      ((reference m ident).check r callee ⟨.reference, type⟩ t) := by
    intro t
    simp only [check]
    split
    · next hvariable => simpa [hvariable] using Typing.reports_expect _ _ _ _
    · next hvariable => simpa [hvariable] using Typing.Reports.refl _
  constructor
  · intro t
    exact .of_reports ((reports_checkVariable r ident t).trans (hreports t)) _
  · simp
  · intro t ht h
    obtain ⟨type', hvariable, hplain', htype⟩ := checkVariable_sound hs henv ht ((hreports t).accepted h)
    simp only [check, hvariable] at h ⊢
    obtain rfl := ((Typing.expect_accepted (Ty.ne_error_of_isPlain hplain)
      (Ty.ne_error_of_isPlain hplain')).1 h).2
    simpa using And.intro htype ht
  · intro t ht h
    simp only [check, checkVariable_complete hdecls hs henv ht h, Typing.expect_self]
    exact ht.accepted

/-- A parameter for the one that a procedure asks for. -/
theorem Param.checks (hdecls : Apart decls) {callee : Ident} {formal : FormalParam} (p : Param)
    (hfree : p.ErrorFree) (hids : p.ids.Nodup) (hocc : AllStand r (p.occurrences env))
    (henv : Surrounded env visited []) (hplain : formal.type.isPlain = true)
    (hone : p.supplied? = some 1) :
    Checks r decls (p.check r callee formal) p.ids visited visited (p.WellTyped r decls [formal])
      p.expressions := by
  obtain ⟨mode, type⟩ := formal
  cases p with
  | value m expr =>
    rw [ids_value, List.nodup_append] at hids
    cases mode with
    | value =>
      have hexpr := Expr.checks_expect hdecls hfree hids.1 hocc henv hplain
      refine (hexpr.mono (by simp +contextual)).congr ⟨fun h => ⟨type, rfl, h⟩, fun h => ?_⟩
      obtain ⟨type', hsame, htype⟩ := h
      obtain rfl : type = type' := by simpa using hsame
      exact htype
    | reference => exact checks_reported (value m expr) _ _ (by simp [WellTyped])
  | reference m ident =>
    cases mode with
    | value => exact checks_reported (reference m ident) _ _ (by simp [WellTyped])
    | reference =>
      obtain ⟨symbol, hs⟩ := hocc ⟨ident.toMark, ident.name, env⟩ (by simp [occurrences])
      refine (checks_reference hdecls hs henv hplain).congr ⟨fun h => ⟨type, rfl, h⟩, fun h => ?_⟩
      obtain ⟨type', hsame, htype⟩ := h
      obtain rfl : type = type' := by simpa using hsame
      exact htype
  | blank m => simp [supplied?] at hone
  | error m => simp [supplied?] at hone

theorem Param.WellTyped.supplied {p : Param} {params : List FormalParam}
    (h : p.WellTyped r decls params) : p.supplied? = some params.length := by
  cases p with
  | value m expr =>
    obtain ⟨type, rfl, -⟩ := h
    rfl
  | reference m ident =>
    obtain ⟨type, rfl, -⟩ := h
    rfl
  | blank m =>
    obtain rfl : params = [] := h
    rfl
  | error m => exact h.elim

theorem Param.supplied_le (p : Param) {n : Nat} (h : p.supplied? = some n) : n ≤ 1 := by
  cases p <;> simp [supplied?] at h <;> omega

theorem checkArguments_mismatch (callee : Ident) {params : List FormalParam} {p : Param} {n : Nat}
    (hn : p.supplied? = some n) (hne : n ≠ params.length) (t : Typing) :
    checkArguments r callee params p t =
      p.checkAlone r (t.report (.arityMismatch callee.name params.length n) p.span) := by
  simp only [checkArguments, hn]
  split
  · exact absurd rfl hne
  · exact if_neg hne

theorem checkArguments_checks (hdecls : Apart decls) (callee : Ident) {params : List FormalParam}
    (p : Param) (hfree : p.ErrorFree) (hids : p.ids.Nodup) (hocc : AllStand r (p.occurrences env))
    (henv : Surrounded env visited []) (hplain : ∀ formal ∈ params, formal.type.isPlain = true) :
    Checks r decls (checkArguments r callee params p) p.ids visited visited
      (p.WellTyped r decls params) p.expressions := by
  cases hn : p.supplied? with
  | none =>
    cases p with
    | error m => exact hfree.elim
    | _ => simp [Param.supplied?] at hn
  | some n =>
    by_cases hlength : n = params.length
    · have hle := p.supplied_le hn
      match params with
      | [] =>
        rw [hlength] at hn
        cases p with
        | blank m => exact .nothing _ _ rfl
        | _ => simp [Param.supplied?] at hn
      | [formal] =>
        rw [hlength] at hn
        have harguments : checkArguments r callee [formal] p = p.check r callee formal := by
          funext t
          simp only [checkArguments, hn, List.length_singleton]
        rw [harguments]
        exact p.checks hdecls hfree hids hocc henv (hplain formal (by simp)) hn
      | _ :: _ :: _ => simp only [List.length_cons] at hlength; omega
    · have hbad : ¬ p.WellTyped r decls params := fun h =>
        hlength (Option.some.inj (hn.symm.trans h.supplied))
      rw [funext (checkArguments_mismatch callee hn hlength)]
      exact p.checks_reported _ _ hbad

theorem checkCall_checks (hdecls : Apart decls) {callee : Ident} {p : Param} (hfree : p.ErrorFree)
    (hids : p.ids.Nodup) (hs : r.Stands env callee.id symbol)
    (hocc : AllStand r (p.occurrences env)) (henv : Surrounded env visited []) :
    Checks r decls (checkCall r callee p) p.ids visited visited
      (∃ params, r.kindOf? callee.id = some (.procedure params) ∧ p.WellTyped r decls params)
      p.expressions := by
  have hplain := hs.isPlain henv
  have hkindOf := Resolution.kindOf?_eq hs.symbolOf?_eq
  cases hkind : symbol.kind with
  | procedure params =>
    rw [hkind] at hkindOf hplain
    have hparams : ∀ formal ∈ params, formal.type.isPlain = true := by
      simpa [Symbol.Kind.isPlain] using hplain
    have hchecks := checkArguments_checks hdecls callee p hfree hids hocc henv hparams
    unfold checkCall
    simp only [hkindOf]
    refine hchecks.congr ⟨fun h => ⟨params, rfl, h⟩, fun h => ?_⟩
    obtain ⟨params', hsame, hwell⟩ := h
    obtain rfl : params = params' := by simpa using hsame
    exact hwell
  | unknown => simp [hkind, Symbol.Kind.isPlain] at hplain
  | _ =>
    rw [hkind] at hkindOf
    unfold checkCall
    simp only [hkindOf]
    exact p.checks_reported _ _ (by simp)

/-! ## Declarations -/

theorem TypeDenoter.check_sound {denoter : TypeDenoter}
    (hs : r.Stands env denoter.name.id symbol) (henv : Surrounded env visited [])
    (h : (denoter.check r t).after.errors = []) :
    ∃ type, denoter.check r t = ⟨type, t⟩ ∧ type.isPlain = true ∧
      r.kindOf? denoter.name.id = some (.type type) := by
  have hplain := hs.isPlain henv
  unfold check at h ⊢
  simp only [Resolution.kindOf?_eq hs.symbolOf?_eq] at h ⊢
  cases hkind : symbol.kind with
  | type type =>
    rw [hkind] at hplain
    exact ⟨type, rfl, hplain, rfl⟩
  | unknown => simp [hkind, Symbol.Kind.isPlain] at hplain
  | _ => simp [hkind] at h

theorem TypeDenoter.check_complete {denoter : TypeDenoter} {type : Ty}
    (h : r.kindOf? denoter.name.id = some (.type type)) : denoter.check r t = ⟨type, t⟩ := by
  simp [check, h]

theorem Typing.errors_recordDeclared (t : Typing) (r : Resolution) (decl : Nat) (type : Ty) :
    (t.recordDeclared r decl type).errors = t.errors := by
  unfold recordDeclared
  split
  · rfl
  · rfl

/-- A constant. Its own name is visible in its value, but has no type yet. -/
theorem Decl.checks_const (hdecls : Apart decls) {m : Mark} {name : Ident} {value : Expr}
    {before : List Declared} (hfree : value.ErrorFree) (hids : (const m name value).ids.Nodup)
    (hocc : AllStand r (value.occurrences ((before ++ [⟨m.id, name, .const none⟩]) :: env)))
    (henv : Surrounded (before :: env) visited []) (hmem : const m name value ∈ decls)
    (hregistered : Declared.Registered ⟨m.id, name, .const none⟩ r) (hnew : m.id ∉ visited) :
    Checks r decls ((const m name value).check r) (const m name value).ids visited
      (visited ++ [m.id]) ((const m name value).WellTyped r decls) value.expressions := by
  rw [ids_const, List.nodup_cons, List.nodup_append] at hids
  have henv' : Surrounded ((before ++ [⟨m.id, name, .const none⟩]) :: env) visited [m.id] :=
    henv.append (fun _ => id) (by simp [Symbol.Kind.isPlain]) (by simp)
  have hgrows := fun t => (value.check_grows r t).append
    (Typing.grows_recordDeclared (value.check r t).after r m.id (value.check r t).type)
  refine ⟨fun t => (hgrows t).mono (by simp +contextual), fun e he => ?_, fun t ht h => ?_,
    fun t ht h => ?_⟩
  · simp [Expr.node_mem_of_expressions he]
  · have hinner : (value.check r t).after.errors = [] := by
      simpa [check, Typing.errors_recordDeclared] using h
    have haccepted := value.check_sound hfree hids.2.1 hocc henv' (by simpa using hnew) ht hinner
    refine ⟨⟨⟨_, haccepted.hasType⟩, haccepted.avoids m.id (by simp)⟩, ?_, fun e he => ?_⟩
    · exact (Expr.check_agrees ht hinner).recordDeclared hregistered hnew haccepted.plain (by simp)
        fun symbol hkind hdecl => .const hkind hdecl hmem haccepted.hasType
    · exact (haccepted.recorded e he).grows (Typing.grows_recordDeclared _ r m.id _) (by simp)
  · obtain ⟨⟨type, htype⟩, havoid⟩ := h
    have hinner := (value.check_complete hdecls hocc henv' ht htype (by simpa using havoid)).1
    simpa [check, Typing.errors_recordDeclared] using hinner

theorem Decl.checks_var {m : Mark} {name : Ident} {denoter : TypeDenoter} {before : List Declared}
    (hs : r.Stands (before :: env) denoter.name.id symbol)
    (henv : Surrounded (before :: env) visited []) (hmem : var m name denoter ∈ decls)
    (hregistered : Declared.Registered ⟨m.id, name, .var⟩ r) (hnew : m.id ∉ visited) :
    Checks r decls ((var m name denoter).check r) (var m name denoter).ids visited
      (visited ++ [m.id]) ((var m name denoter).WellTyped r decls) [] := by
  have hgrows := fun t => (Typing.Grows.of_reports (denoter.reports_check r t) []).append
    (Typing.grows_recordDeclared (denoter.check r t).after r m.id (denoter.check r t).type)
  refine ⟨fun t => (hgrows t).mono (by simp), by simp, fun t ht h => ?_, fun t ht h => ?_⟩
  · have hinner : (denoter.check r t).after.errors = [] := by
      simpa [check, Typing.errors_recordDeclared] using h
    obtain ⟨type, hcheck, hplain, htype⟩ := TypeDenoter.check_sound hs henv hinner
    simp only [check, hcheck]
    refine ⟨⟨type, htype⟩, ?_, by simp⟩
    exact ht.recordDeclared hregistered hnew hplain (by simp)
      fun symbol hkind hdecl => .var hkind hdecl hmem htype
  · obtain ⟨type, htype⟩ := h
    simp [check, TypeDenoter.check_complete htype, Typing.errors_recordDeclared, ht.accepted]

theorem Decl.checks (hdecls : Apart decls) (d : Decl) {before : List Declared}
    (hfree : d.ErrorFree) (hids : d.ids.Nodup) (hocc : AllStand r (d.occurrences env before))
    (henv : Surrounded (before :: env) visited []) (hlisted : ∀ x ∈ d.singles, x ∈ decls)
    (hregistered : ∀ x ∈ d.declared, x.Registered r)
    (hnew : (visited ++ declaredNodes d.declared).Nodup) :
    Checks r decls (d.check r) d.ids visited (visited ++ declaredNodes d.declared)
      (d.WellTyped r decls) d.expressions := by
  induction d generalizing before visited with
  | const m name value =>
    exact checks_const hdecls hfree hids hocc henv (hlisted _ (by simp [singles]))
      (hregistered _ (by simp [declared]))
      fun hin => hnew.disjoint hin (by simp [declared, declaredNodes])
  | var m name denoter =>
    obtain ⟨symbol, hs⟩ := hocc ⟨denoter.name.toMark, denoter.name.name, before :: env⟩
      (by simp [occurrences])
    exact checks_var hs henv (hlisted _ (by simp [singles])) (hregistered _ (by simp [declared]))
      fun hin => hnew.disjoint hin (by simp [declared, declaredNodes])
  | seq m first second ihf ihs =>
    simp only [occurrences, singles, declared, allStand_append, List.forall_mem_append,
      declaredNodes_append] at hocc hlisted hregistered hnew
    rw [← List.append_assoc] at hnew
    rw [ids_seq, List.nodup_append, List.nodup_append] at hids
    have hfirst := ihf hfree.1 hids.1 hocc.1 henv hlisted.1 hregistered.1 (List.nodup_append.1 hnew).1
    have hsecond := ihs hfree.2 hids.2.1.1 hocc.2 (henv.appendDecl first) hlisted.2 hregistered.2 hnew
    exact (hfirst.chain hsecond hids.2.2).mono (by simp +contextual [or_imp])
  | error m => exact hfree.elim

/-! ## Commands -/

/-- The command is part of a program that resolution has accepted. -/
structure Command.Ready (r : Resolution) (decls : List Decl) (env : Env) (c : Command) : Prop where
  errorFree : c.ErrorFree
  nodup : c.ids.Nodup
  stands : AllStand r (c.occurrences env)
  listed : ∀ d ∈ c.declarations, d ∈ decls
  registered : ∀ x ∈ c.declared, x.Registered r

theorem Command.checks (hdecls : Apart decls) (c : Command) (h : c.Ready r decls env)
    (henv : Surrounded env visited []) (hnew : (visited ++ declaredNodes c.declared).Nodup) :
    Checks r decls (c.check r) c.ids visited (visited ++ declaredNodes c.declared)
      (c.WellTyped r decls) c.expressions := by
  obtain ⟨hfree, hids, hocc, hlisted, hregistered⟩ := h
  induction c generalizing env visited with
  | assign m target value =>
    simp only [occurrences, allStand_cons] at hocc
    obtain ⟨⟨symbol, hs⟩, hocc⟩ := hocc
    rw [ids_assign, List.nodup_cons, List.nodup_append] at hids
    simp only [declared, declaredNodes_nil, List.append_nil]
    exact (checkAssign_checks hdecls hfree hids.2.1 hs hocc henv).mono (by simp +contextual)
  | call m callee param =>
    simp only [occurrences, allStand_cons] at hocc
    obtain ⟨⟨symbol, hs⟩, hocc⟩ := hocc
    rw [ids_call, List.nodup_cons, List.nodup_append] at hids
    simp only [declared, declaredNodes_nil, List.append_nil]
    exact (checkCall_checks hdecls hfree hids.2.1 hs hocc henv).mono (by simp +contextual)
  | cond m c thenBranch elseBranch iht ihe =>
    simp only [occurrences, declarations, declared, allStand_append, List.forall_mem_append,
      declaredNodes_append] at hocc hlisted hregistered hnew
    rw [← List.append_assoc] at hnew
    rw [ids_cond, List.nodup_append, List.nodup_append, List.nodup_append] at hids
    obtain ⟨hcids, ⟨hthen, ⟨helse, -⟩, hapart⟩, hcapart⟩ := hids
    have hc := Expr.checks_condition hdecls hfree.1 hcids hocc.1 henv
    have ht := iht henv (List.nodup_append.1 hnew).1 hfree.2.1 hthen hocc.2.1 hlisted.1 hregistered.1
    have he := ihe (henv.visit _) hnew hfree.2.2 helse hocc.2.2 hlisted.2 hregistered.2
    exact (hc.andThen (ht.chain he hapart) (by grind)).mono (by simp +contextual [or_imp])
  | whileDo m c body rest ihb ihr =>
    simp only [occurrences, declarations, declared, allStand_append, List.forall_mem_append,
      declaredNodes_append] at hocc hlisted hregistered hnew
    rw [← List.append_assoc] at hnew
    rw [ids_whileDo, List.nodup_append, List.nodup_append, List.nodup_append] at hids
    obtain ⟨hcids, ⟨hbody, ⟨hrest, -⟩, hapart⟩, hcapart⟩ := hids
    have hc := Expr.checks_condition hdecls hfree.1 hcids hocc.1 henv
    have hb := ihb henv (List.nodup_append.1 hnew).1 hfree.2.1 hbody hocc.2.1 hlisted.1 hregistered.1
    have hr := ihr (henv.visit _) hnew hfree.2.2 hrest hocc.2.2 hlisted.2 hregistered.2
    exact (hc.andThen (hb.chain hr hapart) (by grind)).mono (by simp +contextual [or_imp])
  | doWhile m body c ih =>
    simp only [occurrences, allStand_append] at hocc
    rw [ids_doWhile, List.nodup_append, List.nodup_append] at hids
    obtain ⟨hbody, ⟨hcids, -⟩, hapart⟩ := hids
    have hb := ih henv hnew hfree.1 hbody hocc.1 hlisted hregistered
    have hc := Expr.checks_condition hdecls hfree.2 hcids hocc.2
      (henv.visit (declaredNodes body.declared))
    exact (hb.andThen hc fun a ha b hb => hapart a ha b (List.mem_append_left _ hb)).mono
      (by simp +contextual [or_imp])
  | letIn m decl body rest ihb ihr =>
    simp only [occurrences, declarations, declared, allStand_append, List.forall_mem_append,
      declaredNodes_append] at hocc hlisted hregistered hnew
    rw [← List.append_assoc, ← List.append_assoc] at hnew
    rw [ids_letIn, List.nodup_append, List.nodup_append, List.nodup_append] at hids
    obtain ⟨hdecl, ⟨hbody, ⟨hrest, -⟩, hapart⟩, hdapart⟩ := hids
    have hnew' := (List.nodup_append.1 hnew).1
    have hd := decl.checks hdecls hfree.1 hdecl hocc.1 henv.openList hlisted.1 hregistered.1
      (List.nodup_append.1 hnew').1
    have henv' := henv.openList.appendDecl decl
    have hb := ihb henv' hnew' hfree.2.1 hbody hocc.2.1 hlisted.2.1 hregistered.2.1
    have hr := ihr ((henv.visit _).visit _) hnew hfree.2.2 hrest hocc.2.2 hlisted.2.2 hregistered.2.2
    rw [← List.append_assoc] at hdapart
    exact (hd.chain (hb.chain hr hapart) hdapart).mono (by simp +contextual [or_imp])
  | seq m first second ihf ihs =>
    simp only [occurrences, declarations, declared, allStand_append, List.forall_mem_append,
      declaredNodes_append] at hocc hlisted hregistered hnew
    rw [← List.append_assoc] at hnew
    rw [ids_seq, List.nodup_append, List.nodup_append] at hids
    obtain ⟨hfirst, ⟨hsecond, -⟩, hapart⟩ := hids
    have hf := ihf henv (List.nodup_append.1 hnew).1 hfree.1 hfirst hocc.1 hlisted.1 hregistered.1
    have hs := ihs (henv.visit _) hnew hfree.2 hsecond hocc.2 hlisted.2 hregistered.2
    exact (hf.chain hs hapart).mono (by simp +contextual [or_imp])
  | blank m =>
    simp only [declared, declaredNodes_nil, List.append_nil]
    exact .nothing _ _ trivial
  | error m => exact hfree.elim

end TriLang
