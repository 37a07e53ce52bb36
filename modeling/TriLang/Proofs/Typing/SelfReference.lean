import TriLang.Proofs.Typing.Tables
import TriLang.Proofs.Typing.Uses

/-! # Constants in their own values

A constant is visible in its own value, where it has no type yet, and whatever else is visible has been
checked: so the constants that the checker finds without a type are used in their own values
(`Command.excused`). What is used in the value of a constant is looked up before the constant gets its
type: so all of these uses are found (`Command.comeEarly`). -/
namespace TriLang
set_option autoImplicit false

open Typing

/-- The name stands in the value of a constant of the tree, and is bound to that constant. -/
def Resolution.SelfRefers (r : Resolution) (root : Node) (ident : Ident) : Prop :=
  ∃ m name value k, root.Contains (.decl (.const m name value)) ∧
    (∃ m', (Node.expr value).Contains (.expr (.name m' ident))) ∧
    r.declarations[m.id]? = some k ∧ r.resolutions[ident.id]? = some k

/-! ## Declarations that have been checked -/

/-- The standard constants and what is declared at the visited nodes have types. -/
structure Typing.Covers (t : Typing) (r : Resolution) (visited : List Nat) : Prop where
  standard : ∀ k ∈ builtinTypes r.symbols, k ∈ t.symbolTypes
  declared : ∀ n ∈ visited, ∀ k, r.declarations[n]? = some k → k ∈ t.symbolTypes

namespace Typing.Covers
variable {r : Resolution} {t u : Typing} {visited : List Nat}

theorem of_eq (h : t.Covers r visited) (hu : u.symbolTypes = t.symbolTypes) : u.Covers r visited :=
  ⟨hu ▸ h.standard, hu ▸ h.declared⟩

theorem walks {es : List Expr} {ds : List Decl} {ss : List Typing} (h : t.Covers r visited)
    (hw : Walks r es ds t ss u) : u.Covers r (visited ++ ds.map (·.mark.id)) := by
  constructor
  · exact fun k hk => (hw.mem_symbolTypes k).2 (.inl (h.standard k hk))
  · intro n hn k hk
    rcases List.mem_append.1 hn with hn | hn
    · exact (hw.mem_symbolTypes k).2 (.inl (h.declared n hn k hk))
    · obtain ⟨d, hd, rfl⟩ := List.mem_map.1 hn
      exact (hw.mem_symbolTypes k).2 (.inr ⟨d, hd, hk⟩)

theorem condition (h : t.Covers r visited) (e : Expr) : (e.checkCondition r t).Covers r visited := by
  simpa using h.walks (e.checkCondition_walks t)

theorem decl (h : t.Covers r visited) (d : Decl) :
    (d.check r t).Covers r (visited ++ declaredNodes d.declared) := by
  rw [← d.map_singles]
  exact h.walks (d.check_walks t)

theorem command (h : t.Covers r visited) (c : Command) :
    (c.check r t).Covers r (visited ++ declaredNodes c.declared) := by
  rw [← c.map_declarations]
  exact h.walks (c.check_walks t)

end Typing.Covers

/-! ## Names of constants and variables -/

/-- If the occurrence stands for a constant or a variable, then for a standard constant or for what is
declared at a visible declaration. -/
def Occurrence.Grounded (r : Resolution) (o : Occurrence) : Prop :=
  ∀ k, r.typedSymbol? ⟨o.mark, o.name⟩ = some k → k ∈ builtinTypes r.symbols ∨
    ∃ d, o.env.Visible d ∧ r.declarations[d.node]? = some k

theorem get?_unknown_resolve (p : Program) : ∃ symbol,
    (resolve p).symbols.get? SymbolTable.unknown = some symbol ∧ symbol.kind = .unknown := by
  have hinitial : Resolving.initial.tables.symbols.get? SymbolTable.unknown =
      some ⟨SymbolTable.unknown, "<unknown>", .unknown, none, none⟩ := by decide +kernel
  rw [resolve, Command.resolve_symbols]
  exact ⟨_, SymbolTable.get?_introduce_of_some hinitial _, rfl⟩

theorem resolve_grounded {p : Program} (hids : p.command.ids.Nodup) :
    ∀ o ∈ p.command.occurrences [], o.Grounded (resolve p) := by
  intro o ho k hk
  obtain ⟨k', hk', hdenotes⟩ := (resolve_settled p hids o ho).bound
  obtain ⟨hresolved, hkind⟩ := Resolution.typedSymbol?_eq_some.1 hk
  obtain rfl : k' = k := Option.some.inj (hk'.symm.trans hresolved)
  have hentry : ∀ symbol, (resolve p).symbols.get? k' = some symbol →
      (∃ builtin?, symbol.kind = .const builtin?) ∨ symbol.kind = .var := by
    intro symbol hsymbol
    have hsymbolOf : (resolve p).symbolOf? o.mark.id = some symbol := by
      rw [Resolution.symbolOf?, hk']
      exact hsymbol
    simpa [Resolution.kindOf?, hsymbolOf] using hkind
  cases hdenotes with
  | unknown =>
    obtain ⟨symbol, hsymbol, hunknown⟩ := get?_unknown_resolve p
    simpa [hunknown] using hentry symbol hsymbol
  | known hknown =>
    cases hknown with
    | @declared d _ hd hleads hsymbol => exact .inr ⟨d, (Env.find?_visible hd).1, hleads⟩
    | @standard entity _ hd he hsymbol =>
      cases entity with
      | constant type =>
        refine .inl ?_
        rw [Std.TreeMap.mem_iff_isSome_getElem?,
          (ordered_resolve p).getElem?_builtinTypes.2 ⟨_, hsymbol, rfl⟩]
        rfl
      | _ => simpa [StandardEntity.kind] using hentry _ hsymbol

/-! ## Uses that come too early -/

section
variable {r : Resolution} {env : Env} {visited avoid : List Nat}

/-- Only uses of a constant in its own value come before the constant has its type. -/
def Excused (r : Resolution) (root : Node) (uses : List Use) : Prop :=
  ∀ u ∈ uses, u.IsEarly r → u.role = .value ∧ r.SelfRefers root u.ident

namespace Excused
variable {root child : Node} {front back : List Use}

theorem below (hchild : child ∈ root.children) (h : Excused r child front) :
    Excused r root front := by
  intro u hu hearly
  obtain ⟨hrole, m, name, value, k, hdecl, hrest⟩ := h u hu hearly
  exact ⟨hrole, m, name, value, k, .inside hchild hdecl, hrest⟩

theorem append (h : Excused r root front) (h' : Excused r root back) :
    Excused r root (front ++ back) := List.forall_mem_append.2 ⟨h, h'⟩

theorem none (h : ∀ u ∈ front, ¬ u.IsEarly r) : Excused r root front :=
  fun u hu hearly => absurd hearly (h u hu)

end Excused

/-- What is used in an expression. -/
structure Expr.UsedIn (e : Expr) (env : Env) (t : Typing) (u : Use) : Prop where
  role : u.role = .value
  occurs : ⟨u.ident.toMark, u.ident.name, env⟩ ∈ e.occurrences env
  contains : ∃ m, (Node.expr e).Contains (.expr (.name m u.ident))
  state : u.state.symbolTypes = t.symbolTypes

theorem Expr.UsedIn.below {child e : Expr} {s t : Typing} {u : Use} (h : child.UsedIn env s u)
    (hchild : .expr child ∈ e.children) (hocc : ∀ o ∈ child.occurrences env, o ∈ e.occurrences env)
    (hs : s.symbolTypes = t.symbolTypes) : e.UsedIn env t u :=
  ⟨h.role, hocc _ h.occurs, h.contains.imp fun _ hm => .inside hchild hm, h.state.trans hs⟩

theorem Expr.usedIn_of_mem {e : Expr} {t : Typing} {u : Use} (env : Env)
    (h : u ∈ e.uses r t) : e.UsedIn env t u := by
  induction e generalizing t with
  | binary m op lhs rhs ihl ihr =>
    have hl : ∀ o ∈ lhs.occurrences env, o ∈ (binary m op lhs rhs).occurrences env :=
      fun o ho => List.mem_append_left _ ho
    have hr : ∀ o ∈ rhs.occurrences env, o ∈ (binary m op lhs rhs).occurrences env :=
      fun o ho => List.mem_append_right _ (List.mem_cons_of_mem _ ho)
    rcases List.mem_append.1 h with h | h
    · exact (ihl h).below (by simp [children]) hl rfl
    · exact (ihr h).below (by simp [children]) hr (lhs.check_symbolTypes r t)
  | unary m op operand ih =>
    exact (ih h).below (by simp [children]) (fun o ho => List.mem_cons_of_mem _ ho) rfl
  | name m ident =>
    obtain rfl := List.mem_singleton.1 h
    exact ⟨rfl, List.mem_singleton_self _, ⟨m, .here _⟩, rfl⟩
  | _ => simp [uses] at h

/-- A constant or variable that has no type yet is declared where it has to be avoided. -/
theorem Use.IsEarly.avoided {u : Use} (h : u.IsEarly r)
    (hground : Occurrence.Grounded r ⟨u.ident.toMark, u.ident.name, env⟩)
    (henv : Surrounded env visited avoid) (ht : u.state.Covers r visited) :
    ∃ n ∈ avoid, ∃ k, r.declarations[n]? = some k ∧ r.resolutions[u.ident.id]? = some k := by
  obtain ⟨k, hk, hnone⟩ := h
  rcases hground k hk with hstandard | ⟨d, hd, hleads⟩
  · exact absurd (ht.standard k hstandard) hnone
  · rcases henv.reached d hd with hvisited | havoid
    · exact absurd (ht.declared d.node hvisited k hleads) hnone
    · exact ⟨d.node, havoid, k, hleads, (Resolution.typedSymbol?_eq_some.1 hk).1⟩

/-- What is used in an expression too early is declared where it has to be avoided. -/
theorem Expr.avoided_of_early {e : Expr} (hground : ∀ o ∈ e.occurrences env, o.Grounded r)
    (henv : Surrounded env visited avoid) {t : Typing} (ht : t.Covers r visited) {u : Use}
    (hu : u ∈ e.uses r t) (hearly : u.IsEarly r) :
    ∃ n ∈ avoid, ∃ k, r.declarations[n]? = some k ∧
      r.resolutions[u.ident.id]? = some k :=
  have hused := usedIn_of_mem env hu
  hearly.avoided (hground _ hused.occurs) henv (ht.of_eq hused.state)

theorem Expr.excused {e : Expr} (hground : ∀ o ∈ e.occurrences env, o.Grounded r)
    (henv : Surrounded env visited []) {t : Typing} (ht : t.Covers r visited) (root : Node) :
    Excused r root (e.uses r t) := by
  refine .none fun u hu hearly => ?_
  obtain ⟨n, hn, -⟩ := avoided_of_early hground henv ht hu hearly
  simp at hn

theorem excused_variable (ident : Ident)
    (hground : Occurrence.Grounded r ⟨ident.toMark, ident.name, env⟩) (henv : Surrounded env visited [])
    {t : Typing} (ht : t.Covers r visited) (root : Node) :
    Excused r root [⟨⟨.variable, ident⟩, t⟩] := by
  refine .none fun u hu hearly => ?_
  obtain rfl := List.mem_singleton.1 hu
  obtain ⟨n, hn, -⟩ := hearly.avoided hground henv ht
  simp at hn

theorem Decl.excused (d : Decl) {before : List Declared}
    (hground : ∀ o ∈ d.occurrences env before, o.Grounded r)
    (henv : Surrounded (before :: env) visited []) {t : Typing} (ht : t.Covers r visited) :
    Excused r (.decl d) (d.uses r t) := by
  induction d generalizing before visited t with
  | const m name value =>
    -- Of what is visible in its value, only the constant itself has not been checked.
    have henv' : Surrounded ((before ++ [⟨m.id, name, .const none⟩]) :: env) visited [m.id] :=
      henv.append (fun _ => id) (by simp [Symbol.Kind.isPlain]) (by simp)
    intro u hu hearly
    obtain ⟨n, hn, k, hdeclared, hresolved⟩ := Expr.avoided_of_early hground henv' ht hu hearly
    obtain rfl := List.mem_singleton.1 hn
    have hused := Expr.usedIn_of_mem env hu
    exact ⟨hused.role, m, name, value, k, .here _, hused.contains, hdeclared, hresolved⟩
  | var m name type => exact .none (by simp [uses])
  | seq m first second ihf ihs =>
    obtain ⟨hfirst, hsecond⟩ := List.forall_mem_append.1 hground
    have hf := ihf hfirst henv ht
    have hs := ihs hsecond (henv.appendDecl first) (ht.decl first)
    exact (hf.below (by simp [Node.children, children])).append
      (hs.below (by simp [Node.children, children]))
  | error m => exact .none (by simp [uses])

theorem excused_callUses (callee : Ident) {param : Param} (root : Node)
    (hground : ∀ o ∈ param.occurrences env, o.Grounded r) (henv : Surrounded env visited [])
    {t : Typing} (ht : t.Covers r visited) :
    Excused r root (callUses r callee param t) := by
  cases param with
  | value m e =>
    exact Expr.excused hground henv (ht.of_eq (adds_argumentState callee _ t).symbolTypes) root
  | reference m ident => exact excused_variable ident (hground _ (List.mem_singleton_self _)) henv ht root
  | blank m => exact .none (by simp [callUses])
  | error m => exact .none (by simp [callUses])

theorem Command.excused (c : Command) (hground : ∀ o ∈ c.occurrences env, o.Grounded r)
    (henv : Surrounded env visited []) {t : Typing} (ht : t.Covers r visited) :
    Excused r (.command c) (c.uses r t) := by
  induction c generalizing env visited t with
  | assign m target value =>
    obtain ⟨htarget, hvalue⟩ := List.forall_mem_cons.1 hground
    have ht' := ht.of_eq (reports_checkVariable r target t).symbolTypes
    exact (excused_variable target htarget henv ht _).append (Expr.excused hvalue henv ht' _)
  | call m callee param =>
    exact excused_callUses callee _ (List.forall_mem_cons.1 hground).2 henv ht
  | cond m c thenBranch elseBranch iht ihe =>
    obtain ⟨hcond, hbranches⟩ := List.forall_mem_append.1 hground
    obtain ⟨hthen, helse⟩ := List.forall_mem_append.1 hbranches
    have hc := Expr.excused hcond henv ht (.command (cond m c thenBranch elseBranch))
    have ht' := ht.condition c
    have hte := iht hthen henv ht'
    have hel := ihe helse (henv.visit _) (ht'.command thenBranch)
    exact hc.append ((hte.below (by simp [Node.children, children])).append
      (hel.below (by simp [Node.children, children])))
  | whileDo m c body rest ihb ihr =>
    obtain ⟨hcond, hparts⟩ := List.forall_mem_append.1 hground
    obtain ⟨hbody, hrest⟩ := List.forall_mem_append.1 hparts
    have hc := Expr.excused hcond henv ht (.command (whileDo m c body rest))
    have ht' := ht.condition c
    have hb := ihb hbody henv ht'
    have hr := ihr hrest (henv.visit _) (ht'.command body)
    exact hc.append ((hb.below (by simp [Node.children, children])).append
      (hr.below (by simp [Node.children, children])))
  | doWhile m body c ih =>
    obtain ⟨hbody, hcond⟩ := List.forall_mem_append.1 hground
    have hb := ih hbody henv ht
    exact (hb.below (by simp [Node.children, children])).append
      (Expr.excused hcond (henv.visit _) (ht.command body) _)
  | letIn m decl body rest ihb ihr =>
    obtain ⟨hdecl, hparts⟩ := List.forall_mem_append.1 hground
    obtain ⟨hbody, hrest⟩ := List.forall_mem_append.1 hparts
    have hd := decl.excused hdecl henv.openList ht
    have ht' := ht.decl decl
    have hb := ihb hbody (henv.openList.appendDecl decl) ht'
    have hr := ihr hrest ((henv.visit _).visit _) (ht'.command body)
    exact (hd.below (by simp [Node.children, children])).append
      ((hb.below (by simp [Node.children, children])).append
        (hr.below (by simp [Node.children, children])))
  | seq m first second ihf ihs =>
    obtain ⟨hfirst, hsecond⟩ := List.forall_mem_append.1 hground
    have hf := ihf hfirst henv ht
    have hs := ihs hsecond (henv.visit _) (ht.command first)
    exact (hf.below (by simp [Node.children, children])).append
      (hs.below (by simp [Node.children, children]))
  | blank m => exact .none (by simp [uses])
  | error m => exact .none (by simp [uses])

/-! ## Constants before their types -/

/-- The uses in the value of each constant that is declared come before the constant has a type. -/
def ComeEarly (r : Resolution) (decls : List Decl) (uses : List Use) : Prop :=
  ∀ m name value, Decl.const m name value ∈ decls → ∃ s, (∀ u ∈ value.uses r s, u ∈ uses) ∧
    ∀ k, r.declarations[m.id]? = some k → k ∉ s.symbolTypes

namespace ComeEarly
variable {front back : List Decl} {uses uses' : List Use}

theorem nil (uses : List Use) : ComeEarly r [] uses := fun m name value h => by simp at h

theorem append (h : ComeEarly r front uses) (h' : ComeEarly r back uses') :
    ComeEarly r (front ++ back) (uses ++ uses') := by
  intro m name value hmem
  rcases List.mem_append.1 hmem with hmem | hmem
  · obtain ⟨s, huses, hnew⟩ := h m name value hmem
    exact ⟨s, fun u hu => List.mem_append_left _ (huses u hu), hnew⟩
  · obtain ⟨s, huses, hnew⟩ := h' m name value hmem
    exact ⟨s, fun u hu => List.mem_append_right _ (huses u hu), hnew⟩

end ComeEarly

/-- A condition declares nothing. -/
theorem Typing.Fresh.condition {e : Expr} {es : List Expr} {ds : List Decl} {t : Typing}
    (h : Fresh r (e.expressions ++ es) ds t) : Fresh r es ds (e.checkCondition r t) := by
  have hnone : Fresh r (e.expressions ++ es) ([] ++ ds) t := h
  exact hnone.back (e.checkCondition_walks t)

theorem Decl.comeEarly {d : Decl} {t : Typing} (hfresh : Fresh r d.expressions d.singles t) :
    ComeEarly r d.singles (d.uses r t) := by
  induction d generalizing t with
  | const m name value =>
    intro m' name' value' h
    obtain ⟨rfl, rfl, rfl⟩ := Decl.const.inj (List.mem_singleton.1 h)
    -- The type is recorded behind the value.
    exact ⟨t, fun _ => id, fun k => hfresh.symbols _ h k⟩
  | var m name type => exact fun m' name' value' h => by simp [singles] at h
  | seq m first second ihf ihs =>
    exact (ihf hfresh.front).append (ihs (hfresh.back (first.check_walks t)))
  | error m => exact .nil _

theorem Command.comeEarly {c : Command} {t : Typing}
    (hfresh : Fresh r c.expressions c.declarations t) :
    ComeEarly r c.declarations (c.uses r t) := by
  induction c generalizing t with
  | assign m target value => exact .nil _
  | call m callee param => exact .nil _
  | cond m c thenBranch elseBranch iht ihe =>
    have hbranches := hfresh.condition
    exact (ComeEarly.nil _).append
      ((iht hbranches.front).append (ihe (hbranches.back (thenBranch.check_walks _))))
  | whileDo m c body rest ihb ihr =>
    have hparts := hfresh.condition
    exact (ComeEarly.nil _).append
      ((ihb hparts.front).append (ihr (hparts.back (body.check_walks _))))
  | doWhile m body c ih =>
    have hfresh' : Fresh r (body.expressions ++ c.expressions) (body.declarations ++ []) t := by
      rwa [List.append_nil]
    have hall := (ih hfresh'.front).append (ComeEarly.nil (c.uses r (body.check r t)))
    rwa [List.append_nil] at hall
  | letIn m decl body rest ihb ihr =>
    have hparts := hfresh.back (decl.check_walks t)
    exact (Decl.comeEarly hfresh.front).append
      ((ihb hparts.front).append (ihr (hparts.back (body.check_walks _))))
  | seq m first second ihf ihs =>
    exact (ihf hfresh.front).append (ihs (hfresh.back (first.check_walks t)))
  | blank m => exact .nil _
  | error m => exact .nil _

end

/-! ## Whole programs -/

/-- Where the checker rejects a constant in its own value, and that it looks up all other constants and
variables when they have types. -/
structure Typing.FindsSelfReferences (t : Typing) (r : Resolution) (c : Command) : Prop where
  /-- A name that is an expression is rejected just in case it stands in the value of the constant that
  it is bound to. -/
  rejected : ∀ m ident, (Node.command c).Contains (.expr (.name m ident)) →
    (⟨.recursiveConstant ident.name, ident.span⟩ ∈ t.errors ↔ r.SelfRefers (.command c) ident)
  /-- There is one error for each of them, and no other error of the kind. -/
  once : ∃ idents : List Ident, idents.Nodup ∧
    (∀ ident, ident ∈ idents ↔ r.SelfRefers (.command c) ident) ∧
    t.errors.filter (·.isRecursive) =
      idents.map fun ident => ⟨.recursiveConstant ident.name, ident.span⟩
  /-- The uses are the names that are expressions, targets of assignments or `var` parameters. -/
  looked_up : ∀ l, (∃ u ∈ c.uses r (.start r), u.toLookup = l) ↔
    ∃ n, (Node.command c).Contains n ∧ n.lookup? = some l
  looked_up_once : ((c.uses r (.start r)).map (·.ident.id)).Nodup
  /-- A use of a constant or a variable that is not rejected finds the type of its symbol. -/
  typed : ∀ u ∈ c.uses r (.start r), ∀ k, r.typedSymbol? u.ident = some k →
    ¬ (u.role = .value ∧ r.SelfRefers (.command c) u.ident) →
    ∃ type, u.state.symbolTypes[k]? = some type ∧
      checkValue r u.ident u.state = ⟨type, u.state⟩ ∧
      (r.kindOf? u.ident.id = some .var → checkVariable r u.ident u.state = (some type, u.state))

section
variable {p : Program}

theorem excused_typecheck (hids : p.command.ids.Nodup) : Excused (resolve p) (.command p.command)
    (p.command.uses (resolve p) (.start (resolve p))) :=
  p.command.excused (resolve_grounded hids) surrounded_nil ⟨fun k => id, by simp⟩

/-- The symbol of a constant that is declared is that of a constant. -/
theorem typedSymbol?_of_declared (hids : p.command.ids.Nodup) {m : Mark} {name : Ident} {value : Expr}
    (hdecl : (Node.command p.command).Contains (.decl (.const m name value))) {k : Nat}
    (hdeclared : (resolve p).declarations[m.id]? = some k) {ident : Ident}
    (hresolved : (resolve p).resolutions[ident.id]? = some k) :
    (resolve p).typedSymbol? ident = some k := by
  have hmem := mem_declared_command.2 ⟨_, hdecl, .const m name value⟩
  obtain ⟨k', hk', hentry⟩ := p.command.resolve_registers hids _ _ hmem
  obtain rfl : k' = k := Option.some.inj (hk'.symm.trans hdeclared)
  have hsymbol : (resolve p).symbolOf? ident.id =
      some ⟨k', name.name, .const none, some name.span, some m.id⟩ := by
    rw [Resolution.symbolOf?, hresolved]
    exact hentry
  have hkind : (resolve p).kindOf? ident.id = some (.const none) := by
    rw [Resolution.kindOf?, hsymbol]
    rfl
  exact Resolution.typedSymbol?_eq_some.2 ⟨hresolved, .inl ⟨none, hkind⟩⟩

/-- The names that are rejected. -/
def selfReferences (p : Program) : List Ident :=
  ((p.command.uses (resolve p) (.start (resolve p))).filter
    fun u => u.role = .value ∧ u.IsEarly (resolve p)).map (·.ident)

theorem mem_selfReferences {ident : Ident} : ident ∈ selfReferences p ↔
    ∃ u ∈ p.command.uses (resolve p) (.start (resolve p)),
      (u.role = .value ∧ u.IsEarly (resolve p)) ∧ u.ident = ident := by
  simp [selfReferences, and_assoc]

theorem selfRefers_iff (hids : p.command.ids.Nodup) {ident : Ident} :
    ident ∈ selfReferences p ↔ (resolve p).SelfRefers (.command p.command) ident := by
  rw [mem_selfReferences]
  constructor
  · rintro ⟨u, hu, ⟨-, hearly⟩, rfl⟩
    exact (excused_typecheck hids u hu hearly).2
  · rintro ⟨m, name, value, k, hdecl, ⟨m', hname⟩, hdeclared, hresolved⟩
    have hmem : Decl.const m name value ∈ p.command.declarations :=
      (Node.mem_declarations (n := .command p.command)).2 ⟨_, hdecl, rfl⟩
    obtain ⟨s, huses, hnew⟩ := Command.comeEarly (fresh_start hids) m name value hmem
    obtain ⟨u, hu, hlookup⟩ := value.mem_uses_name (resolve p) s hname
    obtain rfl : u.ident = ident := congrArg Lookup.ident hlookup
    have hused := Expr.usedIn_of_mem [] hu
    have hearly : u.IsEarly (resolve p) := by
      refine ⟨k, typedSymbol?_of_declared hids hdecl hdeclared hresolved, ?_⟩
      rw [hused.state]
      exact hnew k hdeclared
    exact ⟨u, huses u hu, ⟨hused.role, hearly⟩, rfl⟩

theorem recursive_typecheck (p : Program) :
    (typecheck (resolve p) p).recursive = (selfReferences p).map Ident.rejection := by
  have hrejects := p.command.check_rejects (r := resolve p) (.start (resolve p))
  rw [Rejects, rejections] at hrejects
  rw [selfReferences, List.map_map]
  exact hrejects

theorem nodup_selfReferences (hids : p.command.ids.Nodup) : (selfReferences p).Nodup := by
  have huses := hids.sublist (p.command.sublist_uses (resolve p) (.start (resolve p)))
  refine List.Nodup.of_map (·.id) (huses.sublist ?_)
  rw [selfReferences, List.map_map]
  exact List.filter_sublist.map _

/-- An error at the place of a name is about that name. -/
theorem rejection_mem_errors_iff {text : List Char}
    (hplaced : (Node.command p.command).Throughout (Node.WellPlaced text)) {ident : Ident}
    (hident : (Node.command p.command).Contains (.ident ident)) :
    ident.rejection ∈ (typecheck (resolve p) p).errors ↔ ident ∈ selfReferences p := by
  have hrecursive : ident.rejection ∈ (typecheck (resolve p) p).errors ↔
      ident.rejection ∈ (selfReferences p).map Ident.rejection := by
    rw [← recursive_typecheck, recursive, List.mem_filter]
    exact (and_iff_left rfl).symm
  rw [hrecursive]
  constructor
  · intro h
    obtain ⟨ident', hident', hsame⟩ := List.mem_map.1 h
    obtain ⟨u, hu, -, rfl⟩ := mem_selfReferences.1 hident'
    have hspan : u.ident.span = ident.span := congrArg TypeError.span hsame
    have hcontains := Command.contains_of_uses _ hu
    have hnode := hplaced.eq_of_span_eq hcontains hident rfl rfl hspan
      ((hplaced.of_contains hcontains).nonempty (by simp [Node.spelling?]))
    rwa [← Node.ident.inj hnode]
  · exact List.mem_map_of_mem

end

/-- Whatever errors a text has, a constant is rejected where it is used in its own value, and every other
use of a constant or a variable finds its type. -/
theorem typecheck_self_references (text : List Char) :
    let p := (parseText text).program
    (typecheck (resolve p) p).FindsSelfReferences (resolve p) p.command := by
  intro p
  have hplaced : (Node.command p.command).Throughout (Node.WellPlaced text) := tree_wellPlaced text
  have hids : p.command.ids.Nodup := nodup_ids_tree (tokenize text).tokens
  constructor
  case rejected =>
    intro m ident hname
    have hident := hname.child (List.mem_singleton_self (Node.ident ident))
    exact (rejection_mem_errors_iff hplaced hident).trans (selfRefers_iff hids)
  case once =>
    exact ⟨selfReferences p, nodup_selfReferences hids, fun ident => selfRefers_iff hids,
      recursive_typecheck p⟩
  case looked_up => exact p.command.mem_uses (resolve p) _
  case looked_up_once => exact hids.sublist (p.command.sublist_uses _ _)
  case typed =>
    intro u hu k hk hother
    have hmem : k ∈ u.state.symbolTypes := by
      by_contra hnew
      exact hother (excused_typecheck hids u hu ⟨k, hk, hnew⟩)
    obtain ⟨type, htype⟩ := Option.isSome_iff_exists.1 (Std.TreeMap.mem_iff_isSome_getElem?.1 hmem)
    exact ⟨type, htype, checkValue_typed hk htype, fun hvar => checkVariable_typed hk hvar htype⟩

-- A name that is declared twice stands for the first declaration, also in the value of the second.
example :
    let p := (parseText "let const a ~ a + a; const a ~ a in putint(a) endlet".toList).program
    (typecheck (resolve p) p).recursive.map (·.span.start) = [14, 18] := by decide +kernel

end TriLang
