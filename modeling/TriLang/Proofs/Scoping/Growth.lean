import TriLang.Proofs.Scoping.Environment

/-! # How resolution fills its tables

Resolving a part of a tree only adds to the tables: no symbol and no error is taken back, and no entry is
written but at the nodes of that part (`Grows`). A command leaves the scope stack as it was
(`Command.resolve_scopes`), and what it does depends on the stack only through what names are bound to
(`Command.resolve_congr`), so that a scope without bindings makes no difference. -/
namespace TriLang
set_option autoImplicit false

/-! ## Tables that grow -/

namespace SymbolTable

theorem get?_insert_of_some {t : SymbolTable} {k : Nat} {symbol : Symbol} (h : t.get? k = some symbol)
    (name : String) (kind : Symbol.Kind) (span? : Option Span) (decl? : Option Nat) :
    (t.insert name kind span? decl?).get? k = some symbol := by
  obtain ⟨hk, -⟩ := Array.getElem?_eq_some_iff.1 h
  rw [get?, insert, Array.getElem?_push_lt hk, ← Array.getElem?_eq_getElem hk]
  exact h

theorem get?_insert_size (t : SymbolTable) (name : String) (kind : Symbol.Kind)
    (span? : Option Span) (decl? : Option Nat) :
    (t.insert name kind span? decl?).get? t.size = some ⟨t.size, name, kind, span?, decl?⟩ := by
  simp [get?, insert, size]

end SymbolTable

/-- The later tables have everything that is in the earlier ones, and further entries only at the given
nodes. -/
structure Grows (nodes : List Nat) (before after : Resolution) : Prop where
  symbols : ∀ k symbol, before.symbols.get? k = some symbol → after.symbols.get? k = some symbol
  resolutions : ∀ n, n ∉ nodes → after.resolutions[n]? = before.resolutions[n]?
  declarations : ∀ n, n ∉ nodes → after.declarations[n]? = before.declarations[n]?
  errors : before.errors <+: after.errors

namespace Grows
variable {nodes nodes' : List Nat} {t u v : Resolution}

theorem refl (nodes : List Nat) (t : Resolution) : Grows nodes t t :=
  ⟨fun _ _ h => h, fun _ _ => rfl, fun _ _ => rfl, List.prefix_refl _⟩

theorem mono (h : Grows nodes t u) (hsub : ∀ n ∈ nodes, n ∈ nodes') : Grows nodes' t u :=
  ⟨h.symbols, fun n hn => h.resolutions n fun hn' => hn (hsub n hn'),
    fun n hn => h.declarations n fun hn' => hn (hsub n hn'), h.errors⟩

theorem trans (h : Grows nodes t u) (h' : Grows nodes u v) : Grows nodes t v :=
  ⟨fun k symbol hk => h'.symbols k symbol (h.symbols k symbol hk),
    fun n hn => (h'.resolutions n hn).trans (h.resolutions n hn),
    fun n hn => (h'.declarations n hn).trans (h.declarations n hn), h.errors.trans h'.errors⟩

theorem append (h : Grows nodes t u) (h' : Grows nodes' u v) : Grows (nodes ++ nodes') t v :=
  (h.mono fun _ hn => List.mem_append_left nodes' hn).trans
    (h'.mono fun _ hn => List.mem_append_right nodes hn)

end Grows

/-! ## One step of resolution -/

namespace Resolving
variable (s : Resolving)

theorem grows_bind (node symbol : Nat) : Grows [node] s.tables (s.bind node symbol).tables := by
  refine ⟨fun _ _ h => h, fun n hn => ?_, fun _ _ => rfl, List.prefix_refl _⟩
  have hne : node ≠ n := fun h => hn (by simp [h])
  simp [bind, Std.TreeMap.getElem?_insert, hne]

theorem grows_apply (mark : Mark) (name : String) :
    Grows [mark.id] s.tables (s.apply mark name).tables := by
  unfold apply
  split
  · exact s.grows_bind mark.id _
  · have hreport : Grows [mark.id] s.tables (s.report (.undefined name) mark.span).tables :=
      ⟨fun _ _ h => h, fun _ _ => rfl, fun _ _ => rfl, List.prefix_append _ _⟩
    exact hreport.trans (grows_bind _ mark.id _)

theorem grows_introduce (decl : Nat) (name : Ident) (kind : Symbol.Kind) :
    Grows [decl] s.tables (s.introduce decl name kind).tables := by
  refine ⟨fun k symbol h => ?_, fun _ _ => rfl, fun n hn => ?_, List.prefix_refl _⟩
  · exact SymbolTable.get?_insert_of_some h _ _ _ _
  · have hne : decl ≠ n := fun h => hn (by simp [h])
    simp [introduce, Std.TreeMap.getElem?_insert, hne]

theorem grows_declare (decl : Nat) (name : Ident) (kind : Symbol.Kind) :
    Grows [decl] s.tables (s.declare decl name kind).tables := by
  have hintroduce := s.grows_introduce decl name kind
  unfold declare
  dsimp only
  split
  · exact ⟨hintroduce.symbols, hintroduce.resolutions, hintroduce.declarations, List.prefix_append _ _⟩
  · exact hintroduce

@[simp] theorem scopes_apply (mark : Mark) (name : String) :
    (s.apply mark name).scopes = s.scopes := by
  unfold apply
  split <;> rfl

@[simp] theorem scopes_applyIdent (i : Ident) : (s.applyIdent i).scopes = s.scopes :=
  s.scopes_apply _ _

@[simp] theorem scopes_applyOperator (o : Operator) : (s.applyOperator o).scopes = s.scopes :=
  s.scopes_apply _ _

end Resolving

/-! ## Whole trees -/

theorem Expr.resolve_grows (e : Expr) (s : Resolving) :
    Grows e.ids s.tables (e.resolve s).tables := by
  induction e generalizing s with
  | binary m op lhs rhs ihl ihr =>
    refine (((ihl s).append (Resolving.grows_apply _ op.toMark op.spelling)).append (ihr _)).mono ?_
    simp +contextual [or_imp]
  | unary m op operand ih =>
    refine ((s.grows_apply op.toMark op.spelling).append (ih _)).mono ?_
    simp +contextual [or_imp]
  | name m ident =>
    refine (s.grows_apply ident.toMark ident.name).mono ?_
    simp
  | _ => exact .refl _ _

theorem Param.resolve_grows (p : Param) (s : Resolving) :
    Grows p.ids s.tables (p.resolve s).tables := by
  cases p with
  | value m expr =>
    refine (expr.resolve_grows s).mono ?_
    simp +contextual
  | reference m ident =>
    refine (s.grows_apply ident.toMark ident.name).mono ?_
    simp
  | _ => exact .refl _ _

theorem Decl.resolve_grows (d : Decl) (s : Resolving) :
    Grows d.ids s.tables (d.resolve s).tables := by
  induction d generalizing s with
  | const m name value =>
    refine ((s.grows_declare m.id name _).append (value.resolve_grows _)).mono ?_
    simp +contextual [or_imp]
  | var m name type =>
    refine ((s.grows_apply type.name.toMark type.name.name).append
      (Resolving.grows_declare _ m.id name _)).mono ?_
    simp +contextual [or_imp]
  | seq m first second ihf ihs =>
    refine ((ihf s).append (ihs _)).mono ?_
    simp +contextual [or_imp]
  | error m => exact .refl _ _

theorem Command.resolve_grows (c : Command) (s : Resolving) :
    Grows c.ids s.tables (c.resolve s).tables := by
  induction c generalizing s with
  | assign m target value =>
    refine ((s.grows_apply target.toMark target.name).append (value.resolve_grows _)).mono ?_
    simp +contextual [or_imp]
  | call m callee param =>
    refine ((s.grows_apply callee.toMark callee.name).append (param.resolve_grows _)).mono ?_
    simp +contextual [or_imp]
  | cond m c thenBranch elseBranch iht ihe =>
    refine ((c.resolve_grows s).append ((iht _).append (ihe _))).mono ?_
    simp +contextual [or_imp]
  | whileDo m c body rest ihb ihr =>
    refine ((c.resolve_grows s.openScope).append ((ihb _).append (ihr _))).mono ?_
    simp +contextual [or_imp]
  | doWhile m body c ih =>
    refine ((ih s).append (c.resolve_grows _)).mono ?_
    simp +contextual [or_imp]
  | letIn m decl body rest ihb ihr =>
    have hrest := ihr (body.resolve (decl.resolve s.openScope)).closeScope
    refine ((decl.resolve_grows s.openScope).append ((ihb _).append hrest)).mono ?_
    simp +contextual [or_imp]
  | seq m first second ihf ihs =>
    refine ((ihf s).append (ihs _)).mono ?_
    simp +contextual [or_imp]
  | _ => exact .refl _ _

/-! ## The scope stack -/

theorem Expr.resolve_scopes (e : Expr) (s : Resolving) : (e.resolve s).scopes = s.scopes := by
  induction e generalizing s with
  | binary m op lhs rhs ihl ihr => rw [resolve, ihr, Resolving.scopes_applyOperator, ihl]
  | unary m op operand ih => rw [resolve, ih, Resolving.scopes_applyOperator]
  | name m ident => exact s.scopes_applyIdent ident
  | _ => rfl

theorem Param.resolve_scopes (p : Param) (s : Resolving) : (p.resolve s).scopes = s.scopes := by
  cases p with
  | value m expr => exact expr.resolve_scopes s
  | reference m ident => exact s.scopes_applyIdent ident
  | _ => rfl

theorem Resolving.scopes_declare {s : Resolving} {frame : Bindings} {outer : List Bindings}
    (h : s.scopes.scopes = frame :: outer) (decl : Nat) (name : Ident) (kind : Symbol.Kind) :
    (s.declare decl name kind).scopes.scopes =
      if (frame.lookup name.name).isSome then frame :: outer
      else ((name.name, s.tables.symbols.size) :: frame) :: outer := by
  unfold declare ScopeStack.retrieveLocal? ScopeStack.enter
  simp only [h]
  cases hlookup : frame.lookup name.name with
  | some symbol => simpa [report, introduce] using h
  | none => simp

/-- A declaration changes only the innermost scope. -/
theorem Decl.resolve_scopes (d : Decl) {s : Resolving} {frame : Bindings} {outer : List Bindings}
    (h : s.scopes.scopes = frame :: outer) :
    ∃ frame', (d.resolve s).scopes.scopes = frame' :: outer := by
  induction d generalizing s frame with
  | const m name value =>
    rw [resolve, value.resolve_scopes, Resolving.scopes_declare h]
    split
    · exact ⟨_, rfl⟩
    · exact ⟨_, rfl⟩
  | var m name type =>
    have h' : (s.applyIdent type.name).scopes.scopes = frame :: outer := by simpa using h
    rw [resolve, Resolving.scopes_declare h']
    split
    · exact ⟨_, rfl⟩
    · exact ⟨_, rfl⟩
  | seq m first second ihf ihs =>
    obtain ⟨frame', h'⟩ := ihf h
    exact ihs h'
  | error m => exact ⟨frame, h⟩

theorem Resolving.closeScope_scopes {s : Resolving} {frame : Bindings} {outer : ScopeStack}
    (h : s.scopes.scopes = frame :: outer.scopes) : s.closeScope.scopes = outer := by
  simp [closeScope, ScopeStack.closeScope, h]

theorem Command.resolve_scopes (c : Command) (s : Resolving) :
    (c.resolve s).scopes = s.scopes := by
  induction c generalizing s with
  | assign m target value =>
    rw [resolve, value.resolve_scopes, Resolving.scopes_applyIdent]
  | call m callee param =>
    rw [resolve, param.resolve_scopes, Resolving.scopes_applyIdent]
  | cond m c thenBranch elseBranch iht ihe => rw [resolve, ihe, iht, c.resolve_scopes]
  | whileDo m c body rest ihb ihr =>
    have hopen : (rest.resolve (body.resolve (c.resolve s.openScope))).scopes.scopes =
        [] :: s.scopes.scopes := by
      rw [ihr, ihb, c.resolve_scopes]
      rfl
    exact Resolving.closeScope_scopes hopen
  | doWhile m body c ih => rw [resolve, c.resolve_scopes, ih]
  | letIn m decl body rest ihb ihr =>
    obtain ⟨frame, hframe⟩ := decl.resolve_scopes (s := s.openScope) rfl
    rw [resolve, ihr]
    apply Resolving.closeScope_scopes
    rw [ihb]
    exact hframe
  | seq m first second ihf ihs => rw [resolve, ihs, ihf]
  | _ => rfl

/-! ## Only look-ups matter -/

/-- The states have the same tables, and every name is bound to the same symbol. -/
structure Alike (s t : Resolving) : Prop where
  tables : s.tables = t.tables
  retrieve : ∀ name, s.scopes.retrieve? name = t.scopes.retrieve? name

/-- The states are alike, and have the same innermost scope. -/
def AlikeInside (s t : Resolving) : Prop :=
  s.tables = t.tables ∧ ∃ frame outer outer', s.scopes.scopes = frame :: outer ∧
    t.scopes.scopes = frame :: outer' ∧
    ∀ name : String, outer.findSome? (·.lookup name) = outer'.findSome? (·.lookup name)

namespace Alike
variable {s t : Resolving}

theorem openScope (h : Alike s t) : AlikeInside s.openScope t.openScope :=
  ⟨h.tables, [], s.scopes.scopes, t.scopes.scopes, rfl, rfl, h.retrieve⟩

theorem of_inside (h : AlikeInside s t) : Alike s t := by
  obtain ⟨htables, frame, outer, outer', hs, ht, houter⟩ := h
  refine ⟨htables, fun name => ?_⟩
  rw [ScopeStack.retrieve?, ScopeStack.retrieve?, hs, ht, List.findSome?_cons, List.findSome?_cons,
    houter]

/-- What leaves the scopes alone leaves alike states alike. -/
theorem step (h : Alike s t) {s' t' : Resolving} (htables : s'.tables = t'.tables)
    (hs : s'.scopes = s.scopes) (ht : t'.scopes = t.scopes) : Alike s' t' :=
  ⟨htables, fun name => by rw [hs, ht, h.retrieve]⟩

theorem apply (h : Alike s t) (mark : Mark) (name : String) :
    Alike (s.apply mark name) (t.apply mark name) := by
  refine h.step ?_ (s.scopes_apply _ _) (t.scopes_apply _ _)
  unfold Resolving.apply
  rw [h.retrieve]
  split <;> simp [Resolving.bind, Resolving.report, h.tables]

end Alike

theorem AlikeInside.apply {s t : Resolving} (h : AlikeInside s t) (mark : Mark) (name : String) :
    AlikeInside (s.apply mark name) (t.apply mark name) := by
  refine ⟨((Alike.of_inside h).apply mark name).tables, ?_⟩
  simpa using h.2

theorem AlikeInside.declare {s t : Resolving} (h : AlikeInside s t) (decl : Nat) (name : Ident)
    (kind : Symbol.Kind) : AlikeInside (s.declare decl name kind) (t.declare decl name kind) := by
  obtain ⟨htables, frame, outer, outer', hs, ht, houter⟩ := h
  refine ⟨?_, ?_⟩
  · unfold Resolving.declare ScopeStack.retrieveLocal?
    simp only [hs, ht]
    split <;> simp [Resolving.introduce, Resolving.report, Resolving.declaredAt, htables]
  · rw [Resolving.scopes_declare hs, Resolving.scopes_declare ht, htables]
    split
    · exact ⟨_, outer, outer', rfl, rfl, houter⟩
    · exact ⟨_, outer, outer', rfl, rfl, houter⟩

theorem Expr.resolve_congr (e : Expr) {s t : Resolving} (h : Alike s t) :
    Alike (e.resolve s) (e.resolve t) := by
  induction e generalizing s t with
  | binary m op lhs rhs ihl ihr => exact ihr ((ihl h).apply op.toMark op.spelling)
  | unary m op operand ih => exact ih (h.apply op.toMark op.spelling)
  | name m ident => exact h.apply ident.toMark ident.name
  | _ => exact h

theorem Param.resolve_congr (p : Param) {s t : Resolving} (h : Alike s t) :
    Alike (p.resolve s) (p.resolve t) := by
  cases p with
  | value m expr => exact expr.resolve_congr h
  | reference m ident => exact h.apply ident.toMark ident.name
  | _ => exact h

theorem Decl.resolve_congr (d : Decl) {s t : Resolving} (h : AlikeInside s t) :
    AlikeInside (d.resolve s) (d.resolve t) := by
  induction d generalizing s t with
  | const m name value =>
    have hdeclare := h.declare m.id name (.const none)
    refine ⟨(value.resolve_congr (.of_inside hdeclare)).tables, ?_⟩
    simpa only [resolve, value.resolve_scopes] using hdeclare.2
  | var m name type => exact (h.apply type.name.toMark type.name.name).declare m.id name .var
  | seq m first second ihf ihs => exact ihs (ihf h)
  | error m => exact h

theorem Command.resolve_congr (c : Command) {s t : Resolving} (h : Alike s t) :
    Alike (c.resolve s) (c.resolve t) := by
  induction c generalizing s t with
  | assign m target value => exact value.resolve_congr (h.apply target.toMark target.name)
  | call m callee param => exact param.resolve_congr (h.apply callee.toMark callee.name)
  | cond m c thenBranch elseBranch iht ihe => exact ihe (iht (c.resolve_congr h))
  | whileDo m c body rest ihb ihr =>
    refine h.step ?_ (resolve_scopes _ s) (resolve_scopes _ t)
    exact (ihr (ihb (c.resolve_congr (.of_inside h.openScope)))).tables
  | doWhile m body c ih => exact c.resolve_congr (ih h)
  | letIn m decl body rest ihb ihr =>
    have hbody := ihb (.of_inside (decl.resolve_congr h.openScope))
    have hclose : ∀ s : Resolving,
        (body.resolve (decl.resolve s.openScope)).closeScope.scopes = s.scopes := by
      intro s
      obtain ⟨frame, hframe⟩ := decl.resolve_scopes (s := s.openScope) rfl
      apply Resolving.closeScope_scopes
      rw [body.resolve_scopes]
      exact hframe
    exact ihr (h.step hbody.tables (hclose s) (hclose t))
  | seq m first second ihf ihs => exact ihs (ihf h)
  | _ => exact h

/-- The scope that a `while` opens changes nothing. -/
theorem Command.resolve_whileDo (m : Mark) (c : Expr) (body rest : Command) (s : Resolving) :
    (whileDo m c body rest).resolve s = rest.resolve (body.resolve (c.resolve s)) := by
  have hopen : Alike s.openScope s := ⟨rfl, fun name => rfl⟩
  have htables := (rest.resolve_congr (body.resolve_congr (c.resolve_congr hopen))).tables
  have hscopes : ((whileDo m c body rest).resolve s).scopes =
      (rest.resolve (body.resolve (c.resolve s))).scopes := by
    rw [resolve_scopes, rest.resolve_scopes, body.resolve_scopes, c.resolve_scopes]
  calc (whileDo m c body rest).resolve s
      = ⟨((whileDo m c body rest).resolve s).scopes, ((whileDo m c body rest).resolve s).tables⟩ := rfl
    _ = ⟨(rest.resolve (body.resolve (c.resolve s))).scopes,
          (rest.resolve (body.resolve (c.resolve s))).tables⟩ := by
        rw [hscopes]
        exact congrArg (Resolving.mk _) htables

end TriLang
