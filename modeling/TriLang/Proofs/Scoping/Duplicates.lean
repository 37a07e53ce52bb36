import TriLang.Proofs.Scoping.Tables

/-! # Declared twice

A list of declarations may have the same name twice. The first declaration of the name is the one that counts
in its `let`; each later one is a `Redeclaration` of it. Resolution reports the redeclarations of a program one
by one, and no other declaration (`Command.resolve_duplicates`): a scope binds the names that its list has
declared so far to the symbols of their first declarations (`Resolving.Lists`). What is declared again gets a
symbol of its own, which no scope binds and so nothing is ever resolved to (`Resolving.Rejects`).
`resolve_redeclarations` puts this together for the tree of a text. -/
namespace TriLang
open TriLang.Parser TriLang.Text
set_option autoImplicit false

/-! ## Redeclarations -/

/-- A declaration, and the first one of the same name in front of it in its list. -/
structure Redeclaration where
  again : Declared
  first : Declared

/-- The report of a redeclaration. -/
def Redeclaration.error (x : Redeclaration) : ResolveError :=
  ⟨.duplicate x.again.name.name x.first.name.span, x.again.name.span⟩

/-- The redeclarations of a list that stands behind some declarations. -/
def redeclarations (before : List Declared) : List Declared → List Redeclaration
  | [] => []
  | d :: more =>
    ((declaration? before d.name.name).map (⟨d, ·⟩)).toList ++ redeclarations (before ++ [d]) more

/-- The redeclarations in the lists of all lets, in the order of the source. -/
def Command.redeclarations : Command → List Redeclaration
  | cond _ _ thenBranch elseBranch => thenBranch.redeclarations ++ elseBranch.redeclarations
  | whileDo _ _ body rest => body.redeclarations ++ rest.redeclarations
  | doWhile _ body _ => body.redeclarations
  | letIn _ decl body rest =>
    TriLang.redeclarations [] decl.declared ++ (body.redeclarations ++ rest.redeclarations)
  | seq _ first second => first.redeclarations ++ second.redeclarations
  | _ => []

/-- In the list of a `let` of the tree a declaration repeats the name of one in front of it, the first one. -/
def Node.Repeats (root : Node) (x : Redeclaration) : Prop :=
  ∃ m decl body rest front back, root.Contains (.command (.letIn m decl body rest)) ∧
    decl.declared = front ++ x.again :: back ∧ declaration? front x.again.name.name = some x.first

theorem redeclarations_append (before front back : List Declared) :
    redeclarations before (front ++ back) =
      redeclarations before front ++ redeclarations (before ++ front) back := by
  induction front generalizing before with
  | nil => simp [redeclarations]
  | cons d front ih =>
    rw [List.cons_append, redeclarations, redeclarations, ih, List.append_assoc, List.append_assoc,
      List.singleton_append]

theorem mem_redeclarations {before ds : List Declared} {x : Redeclaration} :
    x ∈ redeclarations before ds ↔ ∃ front back, ds = front ++ x.again :: back ∧
      declaration? (before ++ front) x.again.name.name = some x.first := by
  induction ds generalizing before with
  | nil => simp [redeclarations]
  | cons d more ih =>
    rw [redeclarations, List.mem_append, ih, Option.mem_toList, Option.map_eq_some_iff]
    constructor
    · rintro (⟨first, hfirst, rfl⟩ | ⟨front, back, rfl, hfirst⟩)
      · exact ⟨[], more, rfl, by rwa [List.append_nil]⟩
      · exact ⟨d :: front, back, rfl, by rwa [List.append_assoc] at hfirst⟩
    · rintro ⟨front, back, hsplit, hfirst⟩
      cases front with
      | nil =>
        obtain ⟨rfl, -⟩ := List.cons.inj hsplit
        exact .inl ⟨x.first, by rwa [List.append_nil] at hfirst, rfl⟩
      | cons e front =>
        obtain ⟨rfl, rfl⟩ := List.cons.inj hsplit
        exact .inr ⟨front, back, rfl, by rwa [List.append_assoc]⟩

theorem sublist_redeclarations (before ds : List Declared) :
    ((redeclarations before ds).map (·.again)).Sublist ds := by
  induction ds generalizing before with
  | nil => exact List.Sublist.refl _
  | cons d more ih =>
    rw [redeclarations]
    cases declaration? before d.name.name with
    | none => exact (ih _).cons d
    | some first => exact (ih _).cons_cons d

theorem Command.sublist_redeclarations (c : Command) :
    (c.redeclarations.map (·.again)).Sublist c.declared := by
  induction c with
  | cond m c thenBranch elseBranch iht ihe =>
    rw [redeclarations, List.map_append]
    exact iht.append ihe
  | whileDo m c body rest ihb ihr =>
    rw [redeclarations, List.map_append]
    exact ihb.append ihr
  | doWhile m body c ih => exact ih
  | letIn m decl body rest ihb ihr =>
    rw [redeclarations, List.map_append, List.map_append]
    exact (TriLang.sublist_redeclarations [] _).append (ihb.append ihr)
  | seq m first second ihf ihs =>
    rw [redeclarations, List.map_append]
    exact ihf.append ihs
  | _ => exact List.Sublist.refl _

namespace Node

def redeclarations : Node → List Redeclaration
  | command c => c.redeclarations
  | _ => []

/-- The redeclarations in a node's own list. -/
def redeclares : Node → List Redeclaration
  | command (.letIn _ d _ _) => TriLang.redeclarations [] d.declared
  | _ => []

theorem mem_redeclarations_step (n : Node) (x : Redeclaration) :
    x ∈ n.redeclarations ↔ x ∈ n.redeclares ∨ ∃ c ∈ n.children, x ∈ c.redeclarations := by
  cases n with
  | command c => cases c <;> simp [redeclarations, redeclares, children, Command.children,
      Command.redeclarations]
  | decl d => cases d <;> simp [redeclarations, redeclares, children, Decl.children]
  | type d => simp [redeclarations, redeclares, children]
  | param p => cases p <;> simp [redeclarations, redeclares, children, Param.children]
  | expr e => cases e <;> simp [redeclarations, redeclares, children, Expr.children]
  | ident i => simp [redeclarations, redeclares, children]
  | operator o => simp [redeclarations, redeclares, children]

theorem mem_redeclarations {n : Node} {x : Redeclaration} : x ∈ n.redeclarations ↔ n.Repeats x := by
  rw [iff_exists_part (fun n => mem_redeclarations_step n x) n]
  constructor
  · rintro ⟨m, hm, hx⟩
    cases m with
    | command c =>
      cases c with
      | letIn mark decl body rest =>
        obtain ⟨front, back, hsplit, hfirst⟩ := TriLang.mem_redeclarations.1 hx
        exact ⟨mark, decl, body, rest, front, back, hm, hsplit, hfirst⟩
      | _ => simp [redeclares] at hx
    | _ => simp [redeclares] at hx
  · rintro ⟨mark, decl, body, rest, front, back, hm, hsplit, hfirst⟩
    exact ⟨_, hm, TriLang.mem_redeclarations.2 ⟨front, back, hsplit, hfirst⟩⟩

end Node

/-! ## Reports -/

def ResolveError.isDuplicate (e : ResolveError) : Bool := !e.isUndefined

/-- The duplicates among the errors that have been reported. -/
def Resolving.duplicates (s : Resolving) : List ResolveError := s.tables.errors.filter (·.isDuplicate)

namespace Resolving

/-- The innermost scope binds the names that the list has declared so far, each to the symbol of its first
declaration. -/
def Lists (s : Resolving) (before : List Declared) : Prop :=
  ∃ frame outer, s.scopes.scopes = frame :: outer ∧
    (∀ name k, frame.lookup name = some k → ∃ d, declaration? before name = some d ∧
      s.tables.symbols.get? k = some (d.symbol k)) ∧
    ∀ name, frame.lookup name = none → declaration? before name = none

theorem Lists.of_same {s t : Resolving} {before : List Declared} (h : s.Lists before)
    (hscopes : t.scopes = s.scopes) (hsymbols : t.tables.symbols = s.tables.symbols) :
    t.Lists before := by
  rw [Lists, hscopes, hsymbols]
  exact h

theorem lists_openScope (s : Resolving) : s.openScope.Lists [] :=
  ⟨[], s.scopes.scopes, rfl, by simp, fun _ _ => rfl⟩

theorem duplicates_apply (s : Resolving) (leaf : Leaf) :
    (s.apply leaf.toMark leaf.spelling).duplicates = s.duplicates := by
  rw [duplicates, apply_errors, List.filter_append, duplicates]
  split <;> simp [Leaf.undefined, ResolveError.isDuplicate, ResolveError.isUndefined]

/-- What declares nothing reports no duplicates. -/
theorem duplicates_run {events : List Event} (h : declarations events = []) (s : Resolving) :
    (s.run events).duplicates = s.duplicates := by
  induction events generalizing s with
  | nil => rfl
  | cons event events ih =>
    cases event with
    | apply leaf => rw [run_cons, ih h, step, duplicates_apply]
    | declare d => simp at h
    | openScope => exact ih h _
    | closeScope => exact ih h _

/-! ## What is declared again -/

/-- What is declared has a symbol that nothing is bound to. -/
def Rejects (s : Resolving) (d : Declared) : Prop :=
  ∃ k, k ≠ SymbolTable.unknown ∧ s.tables.symbols.get? k = some (d.symbol k) ∧
    (∀ scope ∈ s.scopes.scopes, ∀ b ∈ scope, b.2 ≠ k) ∧ ∀ n : Nat, s.tables.resolutions[n]? ≠ some k

theorem get?_declare_of_some {s : Resolving} {k : Nat} {symbol : Symbol}
    (h : s.tables.symbols.get? k = some symbol) (d : Declared) :
    (s.declare d.node d.name d.kind).tables.symbols.get? k = some symbol := by
  rw [declare_symbols]
  exact SymbolTable.get?_introduce_of_some h [d]

theorem get?_declare_size (s : Resolving) (d : Declared) :
    (s.declare d.node d.name d.kind).tables.symbols.get? s.tables.symbols.size =
      some (d.symbol s.tables.symbols.size) := by
  rw [declare_symbols]
  have hfirst : [d][0]? = some d := rfl
  exact SymbolTable.get?_introduce_size hfirst

theorem Rejects.step {s : Resolving} {d : Declared} (h : s.Rejects d) (event : Event) :
    (s.step event).Rejects d := by
  obtain ⟨k, hknown, hsymbol, hscopes, hentries⟩ := h
  cases event with
  | apply leaf =>
    refine ⟨k, hknown, by rwa [Resolving.step, apply_symbols], by rwa [Resolving.step, scopes_apply], ?_⟩
    intro n
    rw [Resolving.step, apply_resolutions, Std.TreeMap.getElem?_insert]
    split
    · cases hname : s.scopes.retrieve? leaf.spelling with
      | none => simpa using hknown.symm
      | some symbol =>
        obtain ⟨scope, hscope, hlookup⟩ := List.exists_of_findSome?_eq_some hname
        obtain ⟨front, back, rfl, -⟩ := List.lookup_eq_some_iff.1 hlookup
        simpa using hscopes _ hscope (leaf.spelling, symbol) (by simp)
    · exact hentries n
  | declare e =>
    refine ⟨k, hknown, get?_declare_of_some hsymbol e, fun scope hscope b hb => ?_, ?_⟩
    · have hlt : k < s.tables.symbols.size := (Array.getElem?_eq_some_iff.1 hsymbol).1
      rcases s.mem_scopes_declare e hscope hb with ⟨before, hbefore, hb⟩ | hnew
      · exact hscopes before hbefore b hb
      · omega
    · rw [Resolving.step, declare_resolutions]
      exact hentries
  | openScope =>
    refine ⟨k, hknown, hsymbol, fun scope hscope => ?_, hentries⟩
    rcases List.mem_cons.1 hscope with rfl | hscope
    · simp
    · exact hscopes scope hscope
  | closeScope =>
    exact ⟨k, hknown, hsymbol, fun scope hscope => hscopes scope (mem_scopes_of_closeScope hscope),
      hentries⟩

theorem Rejects.run {s : Resolving} {d : Declared} (h : s.Rejects d) (events : List Event) :
    (s.run events).Rejects d := by
  induction events generalizing s with
  | nil => exact h
  | cons event events ih => exact ih (h.step event)

/-! ## One declaration -/

section
variable {s : Resolving} {before : List Declared} {d : Declared}

theorem redeclarations_of_some {first : Declared} (h : declaration? before d.name.name = some first) :
    redeclarations before [d] = [⟨d, first⟩] := by
  simp [redeclarations, h]

theorem redeclarations_of_none (h : declaration? before d.name.name = none) :
    redeclarations before [d] = [] := by
  simp [redeclarations, h]

theorem Lists.declare_again (h : s.Lists before) {first : Declared}
    (hfirst : declaration? before d.name.name = some first) :
    (s.declare d.node d.name d.kind).scopes = s.scopes ∧
      (s.declare d.node d.name d.kind).Lists (before ++ [d]) ∧
      (s.declare d.node d.name d.kind).duplicates =
        s.duplicates ++ [(⟨d, first⟩ : Redeclaration).error] := by
  obtain ⟨frame, outer, hscopes, hbound, hfree⟩ := h
  obtain ⟨k, hlookup⟩ : ∃ k, frame.lookup d.name.name = some k := by
    cases hlookup : frame.lookup d.name.name with
    | none => simp [hfree _ hlookup] at hfirst
    | some k => exact ⟨k, rfl⟩
  have hplace : s.declaredAt k = first.name.span := by
    obtain ⟨first', hfirst', hsymbol⟩ := hbound _ k hlookup
    obtain rfl := Option.some.inj (hfirst.symm.trans hfirst')
    rw [declaredAt, hsymbol]
    rfl
  have hdeclare : s.declare d.node d.name d.kind = (s.introduce d.node d.name d.kind).report
      (.duplicate d.name.name first.name.span) d.name.span := by
    rw [declare, ScopeStack.retrieveLocal?, hscopes]
    simp only [hlookup, hplace]
  have hsame : (s.declare d.node d.name d.kind).scopes = s.scopes := by
    rw [hdeclare]
    rfl
  refine ⟨hsame, ⟨frame, outer, by rw [hsame, hscopes], fun name k' hk' => ?_, fun name hname => ?_⟩, ?_⟩
  · obtain ⟨e, he, hsymbol⟩ := hbound name k' hk'
    exact ⟨e, by rw [declaration?_append, he, Option.some_or], get?_declare_of_some hsymbol d⟩
  · have hne : d.name.name ≠ name := by
      rintro rfl
      simp [hlookup] at hname
    rw [declaration?_append, hfree name hname, if_neg hne, Option.none_or]
  · rw [duplicates, hdeclare, report, List.filter_append]
    rfl

theorem Lists.declare_new (h : s.Lists before) (hnew : declaration? before d.name.name = none) :
    (s.declare d.node d.name d.kind).Lists (before ++ [d]) ∧
      (s.declare d.node d.name d.kind).duplicates = s.duplicates := by
  obtain ⟨frame, outer, hscopes, hbound, hfree⟩ := h
  have hlookup : frame.lookup d.name.name = none := by
    cases hlookup : frame.lookup d.name.name with
    | none => rfl
    | some k =>
      obtain ⟨first, hfirst, -⟩ := hbound _ k hlookup
      simp [hnew] at hfirst
  have hscopes' := scopes_declare hscopes d.node d.name d.kind
  rw [hlookup, Option.isSome_none, if_neg Bool.false_ne_true] at hscopes'
  refine ⟨⟨_, outer, hscopes', fun name k hk => ?_, fun name hname => ?_⟩, ?_⟩
  · rw [List.lookup_cons] at hk
    by_cases hname : name = d.name.name
    · subst hname
      obtain rfl : s.tables.symbols.size = k := by simpa using hk
      exact ⟨d, by rw [declaration?_append, hnew, if_pos rfl, Option.none_or], s.get?_declare_size d⟩
    · rw [beq_false_of_ne hname] at hk
      obtain ⟨e, he, hsymbol⟩ := hbound name k hk
      exact ⟨e, by rw [declaration?_append, he, Option.some_or], get?_declare_of_some hsymbol d⟩
  · rw [List.lookup_cons] at hname
    by_cases hsame : name = d.name.name
    · simp [hsame] at hname
    · rw [beq_false_of_ne hsame] at hname
      rw [declaration?_append, hfree name hname, if_neg (Ne.symm hsame), Option.none_or]
  · rw [duplicates, declare, ScopeStack.retrieveLocal?, hscopes]
    simp only [hlookup]
    rfl

end

/-! ## Runs that report redeclarations -/

/-- From the first state to the second one the redeclarations are reported, one by one, and rejected. -/
structure Reports (s t : Resolving) (xs : List Redeclaration) : Prop where
  reached : ∃ events, t = s.run events
  duplicates : t.duplicates = s.duplicates ++ xs.map Redeclaration.error
  rejects : ∀ x ∈ xs, t.Rejects x.again

section
variable {s t u : Resolving} {xs ys : List Redeclaration}

theorem Reports.append (h : Reports s t xs) (h' : Reports t u ys) : Reports s u (xs ++ ys) := by
  obtain ⟨events, rfl⟩ := h.reached
  obtain ⟨events', rfl⟩ := h'.reached
  refine ⟨⟨events ++ events', (run_append s events events').symm⟩, ?_, fun x hx => ?_⟩
  · rw [h'.duplicates, h.duplicates, List.map_append, List.append_assoc]
  · exact (List.mem_append.1 hx).elim (fun hx => (h.rejects x hx).run events') (h'.rejects x)

theorem Reports.inRange (h : Reports s t xs) (hs : s.InRange) : t.InRange := by
  obtain ⟨events, rfl⟩ := h.reached
  exact hs.run events

theorem reports_run (events : List Event) (h : declarations events = []) (s : Resolving) :
    Reports s (s.run events) [] :=
  ⟨⟨events, rfl⟩, by rw [duplicates_run h, List.map_nil, List.append_nil], by simp⟩

/-- One declaration more in a list is reported and rejected if the list has its name already. -/
theorem Lists.declare {before : List Declared} (h : s.Lists before) (hs : s.InRange) (d : Declared) :
    (s.declare d.node d.name d.kind).Lists (before ++ [d]) ∧
      Reports s (s.declare d.node d.name d.kind) (redeclarations before [d]) := by
  have hreached : ∃ events, s.declare d.node d.name d.kind = s.run events := ⟨[.declare d], rfl⟩
  cases hfirst : declaration? before d.name.name with
  | none =>
    obtain ⟨hlists, hduplicates⟩ := h.declare_new hfirst
    rw [redeclarations_of_none hfirst]
    exact ⟨hlists, hreached, by rw [hduplicates, List.map_nil, List.append_nil], by simp⟩
  | some first =>
    obtain ⟨hscopes, hlists, hduplicates⟩ := h.declare_again hfirst
    rw [redeclarations_of_some hfirst]
    refine ⟨hlists, hreached, hduplicates, fun x hx => ?_⟩
    obtain rfl := List.mem_singleton.1 hx
    refine ⟨_, Nat.ne_of_gt hs.unknown, s.get?_declare_size d, fun scope hscope b hb => ?_, fun n hn => ?_⟩
    · rw [hscopes] at hscope
      exact Nat.ne_of_lt (hs.bindings scope hscope b hb).2
    · rw [declare_resolutions] at hn
      exact Nat.lt_irrefl _ (hs.resolutions n _ hn)

end

end Resolving

/-! ## Trees -/

open Resolving

theorem Expr.reports (e : Expr) (s : Resolving) : Reports s (e.resolve s) [] := by
  rw [resolve_eq_run]
  exact reports_run e.walk e.declarations_walk s

theorem Param.reports (p : Param) (s : Resolving) : Reports s (p.resolve s) [] := by
  rw [resolve_eq_run]
  exact reports_run p.walk p.declarations_walk s

theorem Decl.reports (d : Decl) {s : Resolving} {before : List Declared} (h : s.Lists before)
    (hs : s.InRange) : (d.resolve s).Lists (before ++ d.declared) ∧
      Reports s (d.resolve s) (redeclarations before d.declared) := by
  induction d generalizing s before with
  | const m name value =>
    obtain ⟨hlists, hreports⟩ := h.declare hs ⟨m.id, name, .const none⟩
    have hvalue := hreports.append (value.reports _)
    rw [List.append_nil] at hvalue
    exact ⟨hlists.of_same (value.resolve_scopes _) (value.resolve_symbols _), hvalue⟩
  | var m name type =>
    have hlists : (s.applyIdent type.name).Lists before :=
      h.of_same (s.scopes_applyIdent _) (s.apply_symbols _ _)
    have happly : Reports s (s.applyIdent type.name) [] :=
      reports_run [.apply type.name.toLeaf] rfl s
    obtain ⟨hlists, hreports⟩ := hlists.declare (happly.inRange hs) ⟨m.id, name, .var⟩
    exact ⟨hlists, happly.append hreports⟩
  | seq m first second ihf ihs =>
    obtain ⟨hlists, hreports⟩ := ihf h hs
    obtain ⟨hlists', hreports'⟩ := ihs hlists (hreports.inRange hs)
    rw [declared, redeclarations_append, ← List.append_assoc]
    exact ⟨hlists', hreports.append hreports'⟩
  | error m =>
    rw [declared, List.append_nil]
    exact ⟨h, reports_run [] rfl s⟩

/-- What a command declares again is reported and rejected, whatever is around the command. -/
theorem Command.reports (c : Command) {s : Resolving} (hs : s.InRange) :
    Reports s (c.resolve s) c.redeclarations := by
  induction c generalizing s with
  | assign m target value =>
    have happly : Reports s (s.applyIdent target) [] := reports_run [.apply target.toLeaf] rfl s
    exact happly.append (value.reports _)
  | call m callee param =>
    have happly : Reports s (s.applyIdent callee) [] := reports_run [.apply callee.toLeaf] rfl s
    exact happly.append (param.reports _)
  | cond m c thenBranch elseBranch iht ihe =>
    have hcond := c.reports s
    have hthen := hcond.append (iht (hcond.inRange hs))
    exact hthen.append (ihe (hthen.inRange hs))
  | whileDo m c body rest ihb ihr =>
    have hopen : Reports s s.openScope [] := reports_run [.openScope] rfl s
    have hcond := hopen.append (c.reports _)
    have hbody := hcond.append (ihb (hcond.inRange hs))
    have hrest := hbody.append (ihr (hbody.inRange hs))
    have hclose := hrest.append (reports_run [.closeScope] rfl _)
    rwa [List.append_nil] at hclose
  | doWhile m body c ih =>
    have hcond := (ih hs).append (c.reports _)
    rwa [List.append_nil] at hcond
  | letIn m decl body rest ihb ihr =>
    have hopen : Reports s s.openScope [] := reports_run [.openScope] rfl s
    have hdecl := hopen.append (decl.reports s.lists_openScope (hopen.inRange hs)).2
    have hbody := hdecl.append (ihb (hdecl.inRange hs))
    have hclose := hbody.append (reports_run [.closeScope] rfl _)
    have hrest := hclose.append (ihr (hclose.inRange hs))
    rwa [List.append_nil, List.append_assoc] at hrest
  | seq m first second ihf ihs =>
    have hfirst := ihf hs
    exact hfirst.append (ihs (hfirst.inRange hs))
  | _ => exact reports_run [] rfl s

/-! ## Whole programs -/

theorem Node.Contains.declared_subset {n m : Node} (h : n.Contains m) : m.declared ⊆ n.declared := by
  induction h with
  | here => exact List.Subset.refl _
  | inside hc _ ih =>
    intro x hx
    rw [declared_eq]
    exact List.mem_append_right _ (List.mem_flatMap.2 ⟨_, hc, ih hx⟩)

theorem Node.Repeats.mem_declared {c : Command} {x : Redeclaration} (h : (Node.command c).Repeats x) :
    x.again ∈ c.declared ∧ x.first ∈ c.declared := by
  obtain ⟨m, decl, body, rest, front, back, hlet, hsplit, hfirst⟩ := h
  have hsubset : decl.declared ⊆ c.declared := (hlet.child (c := .decl decl) (by simp [children,
    Command.children])).declared_subset
  rw [hsplit] at hsubset
  exact ⟨hsubset (by simp), hsubset (by simp [(declaration?_mem hfirst).1])⟩

/-- What is reported of declarations and done with them. -/
structure Resolution.RejectsRepeated (r : Resolution) (c : Command) : Prop where
  /-- There is one report for each declaration whose list has its name in front of it already, and it tells
  where the first declaration of the name is. -/
  reported : ∃ repeated : List Redeclaration, repeated.Nodup ∧
    (∀ x, x ∈ repeated ↔ (Node.command c).Repeats x) ∧
    r.errors.filter (·.isDuplicate) = repeated.map fun x =>
      ⟨.duplicate x.again.name.name x.first.name.span, x.again.name.span⟩
  /-- A declaration is reported if and only if one in front of it in its list has the same name. -/
  reported_iff : ∀ d x, (Node.command c).Contains (.decl d) → d.Introduces x →
    ((∃ name previous, ⟨.duplicate name previous, x.name.span⟩ ∈ r.errors) ↔
      ∃ m decl body rest front back, (Node.command c).Contains (.command (.letIn m decl body rest)) ∧
        decl.declared = front ++ x :: back ∧ ∃ y ∈ front, y.name.name = x.name.name)
  /-- The report names a place, which is not empty. -/
  previous : ∀ name previous span, ⟨.duplicate name previous, span⟩ ∈ r.errors →
    previous.start < previous.stop ∧ previous ≠ default
  /-- What is declared again has a symbol, which no entry leads to. -/
  rejected : ∀ x, (Node.command c).Repeats x → ∃ k, r.declarations[x.again.node]? = some k ∧
    r.symbols.get? k = some
      ⟨k, x.again.name.name, x.again.kind, some x.again.name.span, some x.again.node⟩ ∧
    ∀ n : Nat, r.resolutions[n]? ≠ some k

section
variable {p : Program}

theorem resolve_reports (p : Program) :
    (resolve p).errors.filter (·.isDuplicate) = p.command.redeclarations.map Redeclaration.error ∧
      ∀ x ∈ p.command.redeclarations, (p.command.resolve initial).Rejects x.again :=
  have h := p.command.reports initial_inRange
  ⟨h.duplicates, h.rejects⟩

theorem resolve_rejects (hids : p.command.ids.Nodup) {x : Redeclaration}
    (hx : (Node.command p.command).Repeats x) : ∃ k, (resolve p).declarations[x.again.node]? = some k ∧
      (resolve p).symbols.get? k = some (x.again.symbol k) ∧
      ∀ n : Nat, (resolve p).resolutions[n]? ≠ some k := by
  obtain ⟨k, -, hsymbol, -, hentries⟩ := (resolve_reports p).2 x (Node.mem_redeclarations.2 hx)
  have hmem : x.again.symbol k ∈ (resolve p).symbols.declared :=
    List.mem_filter.2 ⟨SymbolTable.mem_toList.2 ⟨k, hsymbol⟩, rfl⟩
  exact ⟨k, (resolve_leads hids hx.mem_declared.1 hmem rfl).1, hsymbol, hentries⟩

theorem mem_duplicates {name : String} {previous span : Span} :
    ⟨.duplicate name previous, span⟩ ∈ (resolve p).errors ↔ ∃ x, (Node.command p.command).Repeats x ∧
      x.error = ⟨.duplicate name previous, span⟩ := by
  have hmem : ⟨.duplicate name previous, span⟩ ∈ (resolve p).errors ↔
      ⟨.duplicate name previous, span⟩ ∈ p.command.redeclarations.map Redeclaration.error := by
    rw [← (resolve_reports p).1, List.mem_filter]
    exact (and_iff_left rfl).symm
  simp only [hmem, List.mem_map, ← Node.mem_redeclarations]
  rfl

end

/-- A name that is declared twice in a list is reported where it is declared again, and nothing refers to what
is declared there. To hide a name of another list or of the standard environment is not reported. -/
theorem resolve_redeclarations (text : List Char) :
    (resolve (parseText text).program).RejectsRepeated (parseText text).program.command := by
  generalize hp : (parseText text).program = p
  have hplaced : (Node.command p.command).Throughout (Node.WellPlaced text) := hp ▸ tree_wellPlaced text
  have hids : p.command.ids.Nodup := hp ▸ nodup_ids_tree (tokenize text).tokens
  have hspans : (p.command.declared.map (·.name.span)).Nodup := hplaced.spread.nodup
  constructor
  case reported =>
    have hnodup : (p.command.redeclarations.map (·.again)).Nodup :=
      (List.Nodup.of_map _ hspans).sublist p.command.sublist_redeclarations
    exact ⟨p.command.redeclarations, List.Nodup.of_map _ hnodup,
      fun _ => Node.mem_redeclarations (n := .command p.command), (resolve_reports p).1⟩
  case reported_iff =>
    intro d x hd hx
    have hdeclared : x ∈ p.command.declared := mem_declared_command.2 ⟨d, hd, hx⟩
    constructor
    · rintro ⟨name, previous, hmem⟩
      obtain ⟨y, hy, herror⟩ := mem_duplicates.1 hmem
      have hsame : y.again = x :=
        List.inj_on_of_nodup_map hspans hy.mem_declared.1 hdeclared (congrArg ResolveError.span herror)
      obtain ⟨m, decl, body, rest, front, back, hlet, hsplit, hfirst⟩ := hy
      rw [hsame] at hsplit hfirst
      exact ⟨m, decl, body, rest, front, back, hlet, hsplit, y.first, declaration?_mem hfirst⟩
    · rintro ⟨m, decl, body, rest, front, back, hlet, hsplit, y, hy, hname⟩
      obtain ⟨first, hfirst⟩ : ∃ first, declaration? front x.name.name = some first :=
        Option.isSome_iff_exists.1 (List.find?_isSome.2 ⟨y, hy, by simpa using hname⟩)
      exact ⟨_, _, mem_duplicates.2 ⟨⟨x, first⟩, ⟨m, decl, body, rest, front, back, hlet, hsplit, hfirst⟩,
        rfl⟩⟩
  case previous =>
    intro name previous span hmem
    obtain ⟨x, hx, herror⟩ := mem_duplicates.1 hmem
    obtain ⟨-, rfl⟩ : x.again.name.name = name ∧ x.first.name.span = previous :=
      ResolveError.Cause.duplicate.inj (congrArg ResolveError.cause herror)
    have hplace := hplaced.spread.inside _ (List.mem_map_of_mem hx.mem_declared.2)
    refine ⟨hplace.2.1, fun hdefault => ?_⟩
    rw [hdefault] at hplace
    exact Nat.lt_irrefl _ hplace.2.1
  case rejected => exact fun x hx => resolve_rejects hids hx

/-- Each repetition is reported with the first declaration; a list further in may use the name again. -/
example : (resolve (parseText ("let const a ~ 1; var a Char; const a ~ 2 in " ++
    "let var a Char in pass endlet endlet").toList).program).errors =
      [⟨.duplicate "a" ⟨10, 11⟩, ⟨21, 22⟩⟩, ⟨.duplicate "a" ⟨10, 11⟩, ⟨35, 36⟩⟩] := by
  decide +kernel

end TriLang
