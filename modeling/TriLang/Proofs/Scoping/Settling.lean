import TriLang.Proofs.Scoping.Growth

/-! # Occurrences are settled where they stand

While a tree is walked, the scope stack binds every name to the symbol it is known as in the environment of
the place that has been reached, and no other name (`Resolving.Reads`). So an applied occurrence is bound
to what it denotes when it is reached (`Occurrence.Settled`), and that stays so because the nodes of the
tree have different numbers: what comes later writes at other nodes. `Settles` says so of a part of a tree,
and parts are put together by `Settles.andThen`. -/
namespace TriLang
set_option autoImplicit false

/-! ## Denotation in growing tables -/

/-- No declaration that is visible in the environment has one of the nodes. -/
def Env.Fresh (env : Env) (nodes : List Nat) : Prop := ∀ d, env.Visible d → d.node ∉ nodes

theorem Env.Fresh.mono {env : Env} {nodes nodes' : List Nat} (h : env.Fresh nodes)
    (hsub : ∀ n ∈ nodes', n ∈ nodes) : env.Fresh nodes' := fun d hd hn => h d hd (hsub _ hn)

section
variable {nodes : List Nat} {t u : Resolution} {env : Env} {name : String} {symbol : Nat}

theorem Known.grows (h : Known t env name symbol) (hg : Grows nodes t u) (hf : env.Fresh nodes) :
    Known u env name symbol := by
  cases h with
  | declared hd hsymbol hentry =>
    refine .declared hd ?_ (hg.symbols _ _ hentry)
    rw [hg.declarations _ (hf _ (Env.find?_visible hd).1), hsymbol]
  | standard hd he hentry => exact .standard hd he (hg.symbols _ _ hentry)

theorem Denotes.grows (h : Denotes t env name symbol) (hg : Grows nodes t u)
    (hf : env.Fresh nodes) : Denotes u env name symbol := by
  cases h with
  | known h => exact .known (h.grows hg hf)
  | unknown hd he => exact .unknown hd he

/-- What a name is known as depends on the environment only through the declaration it refers to. -/
theorem Known.of_find?_eq {env' : Env} (h : Known t env name symbol)
    (heq : env'.find? name = env.find? name) : Known t env' name symbol := by
  cases h with
  | declared hd hsymbol hentry => exact .declared (heq.trans hd) hsymbol hentry
  | standard hd he hentry => exact .standard (heq.trans hd) he hentry

end

/-! ## The invariant -/

/-- The scope stack binds the names that are known in the environment, each to its symbol. -/
structure Resolving.Reads (s : Resolving) (env : Env) : Prop where
  bound : ∀ name symbol, s.scopes.retrieve? name = some symbol → Known s.tables env name symbol
  free : ∀ name, s.scopes.retrieve? name = none →
    env.find? name = none ∧ standardEnvironment.lookup name = none

theorem Resolving.Reads.grow {s t : Resolving} {env : Env} {nodes : List Nat} (h : s.Reads env)
    (hscopes : ∀ name, t.scopes.retrieve? name = s.scopes.retrieve? name)
    (hg : Grows nodes s.tables t.tables) (hf : env.Fresh nodes) : t.Reads env :=
  ⟨fun name symbol hname => (h.bound name symbol (hscopes name ▸ hname)).grows hg hf,
    fun name hname => h.free name (hscopes name ▸ hname)⟩

/-- The occurrence is bound to what it denotes, and if that is unknown it is reported. -/
structure Occurrence.Settled (o : Occurrence) (tables : Resolution) : Prop where
  bound : ∃ symbol, tables.resolutions[o.mark.id]? = some symbol ∧
    Denotes tables o.env o.name symbol
  reported : o.env.find? o.name = none → standardEnvironment.lookup o.name = none →
    ⟨.undefined o.name, o.mark.span⟩ ∈ tables.errors

theorem Occurrence.Settled.grows {o : Occurrence} {nodes : List Nat} {t u : Resolution}
    (h : o.Settled t) (hg : Grows nodes t u) (hmark : o.mark.id ∉ nodes) (hf : o.env.Fresh nodes) :
    o.Settled u := by
  obtain ⟨⟨symbol, hsymbol, hdenotes⟩, hreported⟩ := h
  refine ⟨⟨symbol, ?_, hdenotes.grows hg hf⟩, fun hd he => hg.errors.mem (hreported hd he)⟩
  rw [hg.resolutions _ hmark, hsymbol]

/-! ## Parts of a program that declare nothing -/

/-- The step settles the occurrences, which belong to the nodes, wherever the scope stack reads the
environment. -/
structure Settles (env : Env) (f : Resolving → Resolving) (nodes : List Nat)
    (occurrences : List Occurrence) : Prop where
  grows : ∀ s, Grows nodes s.tables (f s).tables
  scopes : ∀ s, (f s).scopes = s.scopes
  near : ∀ o ∈ occurrences, o.mark.id ∈ nodes ∧
    ∀ d, o.env.Visible d → env.Visible d ∨ d.node ∈ nodes
  settled : ∀ s, s.Reads env → env.Fresh nodes → ∀ o ∈ occurrences, o.Settled (f s).tables

namespace Settles
variable {env : Env} {f g : Resolving → Resolving} {nodes nodes' : List Nat}
  {occurrences occurrences' : List Occurrence}

theorem none (env : Env) (nodes : List Nat) : Settles env (fun s => s) nodes [] :=
  ⟨fun s => .refl nodes s.tables, fun _ => rfl, by simp, by simp⟩

theorem mono (h : Settles env f nodes occurrences) (hsub : ∀ n ∈ nodes, n ∈ nodes') :
    Settles env f nodes' occurrences where
  grows s := (h.grows s).mono hsub
  scopes := h.scopes
  near o ho :=
    ⟨hsub _ (h.near o ho).1, fun d hd => ((h.near o ho).2 d hd).imp_right (hsub d.node)⟩
  settled s hs hf := h.settled s hs (hf.mono hsub)

/-- One step after the other, if no node belongs to both. -/
theorem andThen (h : Settles env f nodes occurrences) (h' : Settles env g nodes' occurrences')
    (hdisjoint : ∀ n ∈ nodes, n ∉ nodes') :
    Settles env (fun s => g (f s)) (nodes ++ nodes') (occurrences ++ occurrences') where
  grows s := (h.grows s).append (h'.grows (f s))
  scopes s := by rw [h'.scopes, h.scopes]
  near := by
    intro o ho
    rcases List.mem_append.1 ho with ho | ho
    · obtain ⟨hmark, henv⟩ := h.near o ho
      exact ⟨List.mem_append_left _ hmark,
        fun d hd => (henv d hd).imp_right (List.mem_append_left nodes')⟩
    · obtain ⟨hmark, henv⟩ := h'.near o ho
      exact ⟨List.mem_append_right _ hmark,
        fun d hd => (henv d hd).imp_right (List.mem_append_right nodes)⟩
  settled := by
    intro s hs hf o ho
    have hf' : env.Fresh nodes' := hf.mono fun _ hn => List.mem_append_right nodes hn
    rcases List.mem_append.1 ho with ho | ho
    · obtain ⟨hmark, henv⟩ := h.near o ho
      have hsettled := h.settled s hs (hf.mono fun _ hn => List.mem_append_left _ hn) o ho
      refine hsettled.grows (h'.grows (f s)) (hdisjoint _ hmark) fun d hd => ?_
      rcases henv d hd with hd | hd
      · exact hf' d hd
      · exact hdisjoint _ hd
    · refine h'.settled (f s) ?_ hf' o ho
      exact hs.grow (fun name => by rw [h.scopes]) (h.grows s)
        (hf.mono fun _ hn => List.mem_append_left _ hn)

theorem apply (env : Env) (mark : Mark) (name : String) :
    Settles env (fun s => s.apply mark name) [mark.id] [⟨mark, name, env⟩] where
  grows s := s.grows_apply mark name
  scopes s := s.scopes_apply mark name
  near := by
    intro o ho
    obtain rfl := List.mem_singleton.1 ho
    exact ⟨by simp, fun d hd => .inl hd⟩
  settled := by
    intro s hs hf o ho
    obtain rfl := List.mem_singleton.1 ho
    have hgrows := s.grows_apply mark name
    cases hname : s.scopes.retrieve? name with
    | some symbol =>
      have hknown := (hs.bound name symbol hname).grows hgrows hf
      refine ⟨⟨symbol, ?_, .known hknown⟩, fun hd he => ?_⟩
      · simp [Resolving.apply, hname, Resolving.bind]
      · cases hknown with
        | declared hd' => rw [hd] at hd'; simp at hd'
        | standard _ he' => rw [he] at he'; simp at he'
    | none =>
      obtain ⟨hd, he⟩ := hs.free name hname
      refine ⟨⟨SymbolTable.unknown, ?_, .unknown hd he⟩, fun _ _ => ?_⟩
      · simp [Resolving.apply, hname, Resolving.bind]
      · simp [Resolving.apply, hname, Resolving.bind, Resolving.report]

end Settles

theorem Expr.settles (e : Expr) (h : e.ids.Nodup) (env : Env) :
    Settles env e.resolve e.ids (e.occurrences env) := by
  induction e with
  | binary m op lhs rhs ihl ihr =>
    simp only [ids_binary, List.nodup_append, List.nodup_cons] at h
    obtain ⟨hlhs, ⟨hop, hrhs, -⟩, hdisjoint⟩ := h
    have htail := (Settles.apply env op.toMark op.spelling).andThen (ihr hrhs) (by simp_all)
    exact ((ihl hlhs).andThen htail (by grind)).mono (by simp +contextual [or_imp])
  | unary m op operand ih =>
    simp only [ids_unary, List.nodup_append, List.nodup_cons] at h
    obtain ⟨hop, hoperand, -⟩ := h
    have happly := Settles.apply env op.toMark op.spelling
    exact (happly.andThen (ih hoperand) (by simp_all)).mono (by simp +contextual [or_imp])
  | name m ident => exact (Settles.apply env ident.toMark ident.name).mono (by simp)
  | _ => exact Settles.none env _

theorem Param.settles (p : Param) (h : p.ids.Nodup) (env : Env) :
    Settles env p.resolve p.ids (p.occurrences env) := by
  cases p with
  | value m expr =>
    simp only [ids_value, List.nodup_append] at h
    exact (expr.settles h.1 env).mono (by simp +contextual)
  | reference m ident => exact (Settles.apply env ident.toMark ident.name).mono (by simp)
  | _ => exact Settles.none env _

/-! ## Declarations -/

/-- Within the declarations of a `let`: the scope stack reads the environment, and the innermost scope
holds the names that the declarations so far introduce. -/
structure Resolving.ReadsInside (s : Resolving) (before : List Declared) (outer : Env) : Prop where
  reads : s.Reads (before :: outer)
  inside : ∃ frame rest, s.scopes.scopes = frame :: rest ∧
    ∀ name : String, (frame.lookup name).isSome = (declaration? before name).isSome

theorem declaration?_append (before : List Declared) (d : Declared) (name : String) :
    declaration? (before ++ [d]) name =
      (declaration? before name).or (if d.name.name = name then some d else none) := by
  rw [declaration?, List.find?_append, declaration?]
  simp [List.find?_cons]
  split <;> simp_all

/-- One more declaration in a list matters only to its own name, and only if it is the first one of it. -/
theorem Env.find?_append (before : List Declared) (d : Declared) (outer : Env) (name : String) :
    Env.find? ((before ++ [d]) :: outer) name =
      if d.name.name = name ∧ declaration? before name = none then some d
      else Env.find? (before :: outer) name := by
  rw [Env.find?, Env.find?, List.findSome?_cons, List.findSome?_cons, declaration?_append]
  by_cases hname : d.name.name = name
  · cases hfirst : declaration? before name <;> simp [hname]
  · simp [hname]

section
variable {s : Resolving} {before : List Declared} {outer : Env}

/-- A name that the list has declared already keeps its meaning. -/
theorem Resolving.ReadsInside.declare_again (h : s.ReadsInside before outer) (d : Declared)
    (hf : Env.Fresh (before :: outer) [d.node]) (hdup : declaration? before d.name.name ≠ none) :
    (s.declare d.node d.name d.kind).ReadsInside (before ++ [d]) outer := by
  obtain ⟨hreads, frame, rest, hscopes, hframe⟩ := h
  have hscopes' := Resolving.scopes_declare hscopes d.node d.name d.kind
  rw [hframe, Option.isSome_iff_ne_none.2 hdup, if_pos rfl] at hscopes'
  have hretrieve : ∀ name, (s.declare d.node d.name d.kind).scopes.retrieve? name =
      s.scopes.retrieve? name := by
    intro name
    rw [ScopeStack.retrieve?, ScopeStack.retrieve?, hscopes', hscopes]
  have hsame := hreads.grow hretrieve (s.grows_declare d.node d.name d.kind) hf
  have hfind : ∀ name, Env.find? ((before ++ [d]) :: outer) name = Env.find? (before :: outer) name := by
    intro name
    rw [Env.find?_append, if_neg]
    rintro ⟨rfl, hnone⟩
    exact hdup hnone
  refine ⟨⟨fun name symbol hname => ?_, fun name hname => ?_⟩, frame, rest, hscopes', fun name => ?_⟩
  · exact (hsame.bound name symbol hname).of_find?_eq (hfind name)
  · rw [hfind]
    exact hsame.free name hname
  · rw [hframe, declaration?_append]
    by_cases hname : d.name.name = name
    · subst hname
      obtain ⟨x, hx⟩ := Option.ne_none_iff_exists'.1 hdup
      simp [hx]
    · simp [hname]

/-- A name that is new in the list means what is declared now. -/
theorem Resolving.ReadsInside.declare_new (h : s.ReadsInside before outer) (d : Declared)
    (hf : Env.Fresh (before :: outer) [d.node]) (hnew : declaration? before d.name.name = none) :
    (s.declare d.node d.name d.kind).ReadsInside (before ++ [d]) outer := by
  obtain ⟨hreads, frame, rest, hscopes, hframe⟩ := h
  have hgrows := s.grows_declare d.node d.name d.kind
  have hlookup : frame.lookup d.name.name = none := by
    have hsame := hframe d.name.name
    simpa [hnew] using hsame
  have hscopes' := Resolving.scopes_declare hscopes d.node d.name d.kind
  simp only [hlookup, Option.isSome_none, Bool.false_eq_true, if_false] at hscopes'
  have htables : (s.declare d.node d.name d.kind).tables = (s.introduce d.node d.name d.kind).tables := by
    simp [Resolving.declare, ScopeStack.retrieveLocal?, hscopes, hlookup]
  have hother : ∀ name, d.name.name ≠ name → (name == d.name.name) = false := by
    intro name hname
    simpa using Ne.symm hname
  refine ⟨⟨fun name symbol hsymbol => ?_, fun name hsymbol => ?_⟩, _, rest, hscopes', fun name => ?_⟩
  · rw [ScopeStack.retrieve?, hscopes', List.findSome?_cons, List.lookup_cons] at hsymbol
    by_cases hname : d.name.name = name
    · subst hname
      obtain rfl : s.tables.symbols.size = symbol := by simpa using hsymbol
      refine .declared (d := d) ?_ ?_ ?_
      · rw [Env.find?_append, if_pos ⟨rfl, hnew⟩]
      · rw [htables]
        simp [Resolving.introduce]
      · rw [htables]
        exact SymbolTable.get?_insert_size _ _ _ _ _
    · have hold : s.scopes.retrieve? name = some symbol := by
        rw [ScopeStack.retrieve?, hscopes, List.findSome?_cons]
        simpa [hother name hname] using hsymbol
      have hfind := Env.find?_append before d outer name
      rw [if_neg fun hboth => hname hboth.1] at hfind
      exact ((hreads.bound name symbol hold).grows hgrows hf).of_find?_eq hfind
  · rw [ScopeStack.retrieve?, hscopes', List.findSome?_cons, List.lookup_cons] at hsymbol
    by_cases hname : d.name.name = name
    · simp [hname] at hsymbol
    · have hold : s.scopes.retrieve? name = none := by
        rw [ScopeStack.retrieve?, hscopes, List.findSome?_cons]
        simpa [hother name hname] using hsymbol
      rw [Env.find?_append, if_neg fun hboth => hname hboth.1]
      exact hreads.free name hold
  · rw [List.lookup_cons, declaration?_append]
    by_cases hname : d.name.name = name
    · simp [hname]
    · simp [hname, hother name hname, hframe]

theorem Resolving.ReadsInside.declare (h : s.ReadsInside before outer) (d : Declared)
    (hf : Env.Fresh (before :: outer) [d.node]) :
    (s.declare d.node d.name d.kind).ReadsInside (before ++ [d]) outer := by
  by_cases hnew : declaration? before d.name.name = none
  · exact h.declare_new d hf hnew
  · exact h.declare_again d hf hnew

end

/-- Declaring something keeps the environment apart from the nodes that come later. -/
theorem Env.Fresh.append {before more : List Declared} {outer : Env} {nodes : List Nat}
    (h : Env.Fresh (before :: outer) nodes) (hmore : ∀ x ∈ more, x.node ∉ nodes) :
    Env.Fresh ((before ++ more) :: outer) nodes := by
  intro x hx
  rcases Env.visible_append.1 hx with hx | hx
  · exact hmore x hx
  · exact h x hx

theorem Decl.occurrences_near (d : Decl) (h : d.ids.Nodup) (outer : Env) (before : List Declared) :
    ∀ o ∈ d.occurrences outer before, o.mark.id ∈ d.ids ∧
      ∀ x, o.env.Visible x → Env.Visible (before :: outer) x ∨ x.node ∈ d.ids := by
  induction d generalizing before with
  | const m name value =>
    intro o ho
    rw [ids_const, List.nodup_cons, List.nodup_append] at h
    obtain ⟨hmark, henv⟩ := (value.settles h.2.1 _).near o ho
    refine ⟨by simp [hmark], fun x hx => ?_⟩
    rcases henv x hx with hx | hx
    · rcases Env.visible_append.1 hx with hx | hx
      · obtain rfl := List.mem_singleton.1 hx
        exact .inr (by simp)
      · exact .inl hx
    · exact .inr (by simp [hx])
  | var m name type =>
    intro o ho
    obtain rfl := List.mem_singleton.1 ho
    exact ⟨by simp, fun x hx => .inl hx⟩
  | seq m first second ihf ihs =>
    intro o ho
    rw [ids_seq, List.nodup_append, List.nodup_append] at h
    rcases List.mem_append.1 ho with ho | ho
    · obtain ⟨hmark, henv⟩ := ihf h.1 before o ho
      exact ⟨by simp [hmark], fun x hx => (henv x hx).imp_right fun hx => by simp [hx]⟩
    · obtain ⟨hmark, henv⟩ := ihs h.2.1.1 _ o ho
      refine ⟨by simp [hmark], fun x hx => ?_⟩
      rcases henv x hx with hx | hx
      · rcases Env.visible_append.1 hx with hx | hx
        · exact .inr (by simp [node_mem_of_declared hx])
        · exact .inl hx
      · exact .inr (by simp [hx])
  | error m => simp [occurrences]

theorem Decl.settled (d : Decl) (h : d.ids.Nodup) {s : Resolving} {before : List Declared}
    {outer : Env} (hs : s.ReadsInside before outer) (hf : Env.Fresh (before :: outer) d.ids) :
    (d.resolve s).ReadsInside (before ++ d.declared) outer ∧
      ∀ o ∈ d.occurrences outer before, o.Settled (d.resolve s).tables := by
  induction d generalizing s before with
  | const m name value =>
    rw [ids_const, List.nodup_cons, List.nodup_append] at h
    have hdeclare := hs.declare ⟨m.id, name, .const none⟩ (hf.mono (by simp))
    have hsettles := value.settles h.2.1 ((before ++ [⟨m.id, name, .const none⟩]) :: outer)
    have hfresh : Env.Fresh ((before ++ [⟨m.id, name, .const none⟩]) :: outer) value.ids := by
      refine (hf.mono (by simp +contextual)).append fun x hx => ?_
      obtain rfl := List.mem_singleton.1 hx
      exact fun hm => h.2.2.2 _ hm _ (by simp) rfl
    refine ⟨⟨?_, ?_⟩, hsettles.settled _ hdeclare.reads hfresh⟩
    · exact hdeclare.reads.grow (fun x => by rw [resolve, hsettles.scopes]) (hsettles.grows _) hfresh
    · rw [resolve, hsettles.scopes]
      exact hdeclare.inside
  | var m name type =>
    have happly := Settles.apply (before :: outer) type.name.toMark type.name.name
    have hfresh : Env.Fresh (before :: outer) [type.name.id] := hf.mono (by simp)
    have hs' : (s.applyIdent type.name).ReadsInside before outer :=
      ⟨hs.reads.grow (fun x => by rw [Resolving.scopes_applyIdent]) (happly.grows s) hfresh,
        by rw [Resolving.scopes_applyIdent]; exact hs.inside⟩
    have hdeclare := hs'.declare ⟨m.id, name, .var⟩ (hf.mono (by simp))
    refine ⟨hdeclare, fun o ho => ?_⟩
    have hsettled := happly.settled s hs.reads hfresh o ho
    obtain rfl := List.mem_singleton.1 ho
    have hne : type.name.id ≠ m.id := by simp_all
    exact hsettled.grows (Resolving.grows_declare _ m.id name .var) (by simpa using hne)
      (hf.mono (by simp))
  | seq m first second ihf ihs =>
    rw [ids_seq, List.nodup_append, List.nodup_append] at h
    obtain ⟨hfirst, ⟨hsecond, -, -⟩, hdisjoint⟩ := h
    have hapart : ∀ n ∈ first.ids, n ∉ second.ids :=
      fun n hn hn' => hdisjoint n hn n (List.mem_append_left _ hn') rfl
    obtain ⟨hs', hsettled⟩ := ihf hfirst hs (hf.mono (by simp +contextual))
    have hf' : Env.Fresh (before :: outer) second.ids := hf.mono (by simp +contextual)
    have hfresh : Env.Fresh ((before ++ first.declared) :: outer) second.ids :=
      hf'.append fun x hx => hapart _ (node_mem_of_declared hx)
    obtain ⟨hs'', hsettled'⟩ := ihs hsecond hs' hfresh
    refine ⟨by rw [declared, ← List.append_assoc]; exact hs'', fun o ho => ?_⟩
    rcases List.mem_append.1 ho with ho | ho
    · obtain ⟨hmark, henv⟩ := first.occurrences_near hfirst outer before o ho
      refine (hsettled o ho).grows (second.resolve_grows _) (hapart _ hmark) fun x hx => ?_
      exact (henv x hx).elim (hf' x) (hapart x.node)
    · exact hsettled' o ho
  | error m => exact ⟨by simpa [declared, resolve] using hs, by simp [occurrences]⟩

/-! ## Commands -/

/-- The declarations of a `let` and its body, between opening and closing the scope. -/
theorem Settles.letIn {decl : Decl} {body : Command} {env : Env} (hdecl : decl.ids.Nodup)
    (hbody : Settles (decl.declared :: env) body.resolve body.ids
      (body.occurrences (decl.declared :: env))) (hapart : ∀ n ∈ decl.ids, n ∉ body.ids) :
    Settles env (fun s => (body.resolve (decl.resolve s.openScope)).closeScope)
      (decl.ids ++ body.ids)
      (decl.occurrences env [] ++ body.occurrences (decl.declared :: env)) where
  grows s := (decl.resolve_grows s.openScope).append (body.resolve_grows _)
  scopes s := by
    obtain ⟨frame, hframe⟩ := decl.resolve_scopes (s := s.openScope) rfl
    apply Resolving.closeScope_scopes
    rw [body.resolve_scopes]
    exact hframe
  near := by
    intro o ho
    rcases List.mem_append.1 ho with ho | ho
    · obtain ⟨hmark, henv⟩ := decl.occurrences_near hdecl env [] o ho
      refine ⟨List.mem_append_left _ hmark, fun x hx => ?_⟩
      rcases henv x hx with hx | hx
      · exact .inl (by simpa [Env.visible_cons] using hx)
      · exact .inr (List.mem_append_left _ hx)
    · obtain ⟨hmark, henv⟩ := hbody.near o ho
      refine ⟨List.mem_append_right _ hmark, fun x hx => ?_⟩
      rcases henv x hx with hx | hx
      · rcases Env.visible_cons.1 hx with hx | hx
        · exact .inr (List.mem_append_left _ (Decl.node_mem_of_declared hx))
        · exact .inl hx
      · exact .inr (List.mem_append_right _ hx)
  settled := by
    intro s hs hf o ho
    have hopen : s.openScope.ReadsInside [] env := by
      refine ⟨⟨fun name symbol hname => ?_, hs.free⟩, [], s.scopes.scopes, rfl, fun name => rfl⟩
      exact (hs.bound name symbol hname).of_find?_eq rfl
    have hempty : Env.Fresh ([] :: env) (decl.ids ++ body.ids) := by
      intro x hx
      rcases Env.visible_cons.1 hx with hx | hx
      · simp at hx
      · exact hf x hx
    obtain ⟨hinside, hsettled⟩ := decl.settled hdecl hopen
      (hempty.mono fun _ hn => List.mem_append_left _ hn)
    have hfresh : Env.Fresh (decl.declared :: env) body.ids :=
      (hempty.mono fun _ hn => List.mem_append_right _ hn).append
        fun x hx => hapart _ (Decl.node_mem_of_declared hx)
    rcases List.mem_append.1 ho with ho | ho
    · obtain ⟨hmark, henv⟩ := decl.occurrences_near hdecl env [] o ho
      refine (hsettled o ho).grows (body.resolve_grows _) (hapart _ hmark) fun x hx => ?_
      exact (henv x hx).elim (hempty.mono (fun _ hn => List.mem_append_right _ hn) x) (hapart x.node)
    · exact hbody.settled _ hinside.reads hfresh o ho

theorem Command.settles (c : Command) (h : c.ids.Nodup) (env : Env) :
    Settles env c.resolve c.ids (c.occurrences env) := by
  induction c generalizing env with
  | assign m target value =>
    rw [ids_assign, List.nodup_cons, List.nodup_append] at h
    have happly := Settles.apply env target.toMark target.name
    exact (happly.andThen (value.settles h.2.1 env) (by simp_all)).mono (by simp +contextual [or_imp])
  | call m callee param =>
    rw [ids_call, List.nodup_cons, List.nodup_append] at h
    have happly := Settles.apply env callee.toMark callee.name
    exact (happly.andThen (param.settles h.2.1 env) (by simp_all)).mono (by simp +contextual [or_imp])
  | cond m c thenBranch elseBranch iht ihe =>
    rw [ids_cond, List.nodup_append, List.nodup_append, List.nodup_append] at h
    obtain ⟨hc, ⟨hthen, ⟨helse, -⟩, hapart⟩, hapart'⟩ := h
    have hbranches := (iht hthen env).andThen (ihe helse env) (by grind)
    exact ((c.settles hc env).andThen hbranches (by grind)).mono (by simp +contextual [or_imp])
  | whileDo m c body rest ihb ihr =>
    rw [ids_whileDo, List.nodup_append, List.nodup_append, List.nodup_append] at h
    obtain ⟨hc, ⟨hbody, ⟨hrest, -⟩, hapart⟩, hapart'⟩ := h
    have hparts := (ihb hbody env).andThen (ihr hrest env) (by grind)
    rw [show (whileDo m c body rest).resolve = fun s => rest.resolve (body.resolve (c.resolve s)) from
      funext (resolve_whileDo m c body rest)]
    exact ((c.settles hc env).andThen hparts (by grind)).mono (by simp +contextual [or_imp])
  | doWhile m body c ih =>
    rw [ids_doWhile, List.nodup_append, List.nodup_append] at h
    obtain ⟨hbody, ⟨hc, -⟩, hapart⟩ := h
    exact ((ih hbody env).andThen (c.settles hc env) (by grind)).mono
      (by simp +contextual [or_imp])
  | letIn m decl body rest ihb ihr =>
    rw [ids_letIn, List.nodup_append, List.nodup_append, List.nodup_append] at h
    obtain ⟨hdecl, ⟨hbody, ⟨hrest, -⟩, hapart⟩, hapart'⟩ := h
    have hinside := Settles.letIn hdecl (ihb hbody (decl.declared :: env)) (by grind)
    have hall : Settles env (letIn m decl body rest).resolve (letIn m decl body rest).ids _ :=
      (hinside.andThen (ihr hrest env) (by grind)).mono (by simp +contextual [or_imp])
    rwa [List.append_assoc] at hall
  | seq m first second ihf ihs =>
    rw [ids_seq, List.nodup_append, List.nodup_append] at h
    obtain ⟨hfirst, ⟨hsecond, -⟩, hapart⟩ := h
    exact ((ihf hfirst env).andThen (ihs hsecond env) (by grind)).mono
      (by simp +contextual [or_imp])
  | _ => exact Settles.none env _

end TriLang
