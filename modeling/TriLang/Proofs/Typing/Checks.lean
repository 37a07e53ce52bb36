import TriLang.Proofs.Typing.Expressions

/-! # Checking one part after another

`Checks` says what checking a part of a program does: on a state that agrees with the rules it reports
nothing just in case the part keeps the rules, and then the state agrees with the rules afterwards, for the
declarations of the part too, and the types of the part's expressions are recorded. Parts that come
one after another are put together by `Checks.andThen`. -/
namespace TriLang
set_option autoImplicit false

/-- The numbers of what is declared. -/
def declaredNodes (declared : List Declared) : List Nat := declared.map Declared.node

@[simp] theorem declaredNodes_nil : declaredNodes [] = [] := rfl

@[simp] theorem declaredNodes_append (front back : List Declared) :
    declaredNodes (front ++ back) = declaredNodes front ++ declaredNodes back := List.map_append

/-- What checking a part does to the state; `nodes` are its nodes, and the visited declarations are those
before and behind it. -/
structure Checks (r : Resolution) (decls : List Decl) (f : Typing → Typing) (nodes : List Nat)
    (visited visited' : List Nat) (good : Prop) (expressions : List Expr) : Prop where
  grows : ∀ t, Typing.Grows nodes t (f t)
  near : ∀ e ∈ expressions, e.mark.id ∈ nodes
  sound : ∀ t, t.Agrees r decls visited → (f t).errors = [] →
    good ∧ (f t).Agrees r decls visited' ∧ ∀ e ∈ expressions, e.Recorded r decls (f t)
  complete : ∀ t, t.Agrees r decls visited → good → (f t).errors = []

namespace Checks
variable {r : Resolution} {decls : List Decl} {f g : Typing → Typing} {nodes nodes' : List Nat}
  {visited visited' visited'' : List Nat} {good good' : Prop} {expressions expressions' : List Expr}

/-- Nothing is checked, as the rules ask for nothing. -/
theorem nothing (nodes visited : List Nat) (hgood : good) :
    Checks r decls (fun t => t) nodes visited visited good [] where
  grows := .refl nodes
  near := by simp
  sound _ ht _ := ⟨hgood, ht, by simp⟩
  complete _ ht _ := ht.accepted

/-- What can only be wrong is reported. -/
theorem rejected (hgrows : ∀ t, Typing.Grows nodes t (f t))
    (hnear : ∀ e ∈ expressions, e.mark.id ∈ nodes) (hreports : ∀ t, (f t).errors ≠ [])
    (hbad : ¬ good) : Checks r decls f nodes visited visited' good expressions where
  grows := hgrows
  near := hnear
  sound t _ h := absurd h (hreports t)
  complete _ _ h := absurd h hbad

theorem mono (h : Checks r decls f nodes visited visited' good expressions)
    (hsub : ∀ n ∈ nodes, n ∈ nodes') :
    Checks r decls f nodes' visited visited' good expressions where
  grows t := (h.grows t).mono hsub
  near e he := hsub _ (h.near e he)
  sound := h.sound
  complete := h.complete

theorem congr (h : Checks r decls f nodes visited visited' good expressions) (hgood : good ↔ good') :
    Checks r decls f nodes visited visited' good' expressions where
  grows := h.grows
  near := h.near
  sound t ht hf := ⟨hgood.1 (h.sound t ht hf).1, (h.sound t ht hf).2⟩
  complete t ht hg := h.complete t ht (hgood.2 hg)

/-- One part after another. -/
theorem andThen (h : Checks r decls f nodes visited visited' good expressions)
    (h' : Checks r decls g nodes' visited' visited'' good' expressions')
    (hapart : ∀ a ∈ nodes, ∀ b ∈ nodes', a ≠ b) :
    Checks r decls (fun t => g (f t)) (nodes ++ nodes') visited visited'' (good ∧ good')
      (expressions ++ expressions') where
  grows t := (h.grows t).append (h'.grows (f t))
  near e he := by
    rcases List.mem_append.1 he with he | he
    · exact List.mem_append_left _ (h.near e he)
    · exact List.mem_append_right _ (h'.near e he)
  sound t ht hg := by
    obtain ⟨hgood, hagrees, hrecorded⟩ := h.sound t ht ((h'.grows (f t)).accepted hg)
    obtain ⟨hgood', hagrees', hrecorded'⟩ := h'.sound (f t) hagrees hg
    refine ⟨⟨hgood, hgood'⟩, hagrees', fun e he => ?_⟩
    rcases List.mem_append.1 he with he | he
    · exact (hrecorded e he).grows (h'.grows (f t)) fun hin => hapart _ (h.near e he) _ hin rfl
    · exact hrecorded' e he
  complete t ht hgood := by
    have hf := h.complete t ht hgood.1
    exact h'.complete (f t) (h.sound t ht hf).2.1 hgood.2

/-- Two parts that declare something, at nodes that are apart. -/
theorem chain {front back : List Declared} {more : List Nat}
    (h : Checks r decls f nodes visited (visited ++ declaredNodes front) good expressions)
    (h' : Checks r decls g nodes' (visited ++ declaredNodes front)
      (visited ++ declaredNodes front ++ declaredNodes back) good' expressions')
    (hapart : ∀ a ∈ nodes, ∀ b ∈ nodes' ++ more, a ≠ b) :
    Checks r decls (fun t => g (f t)) (nodes ++ nodes') visited
      (visited ++ declaredNodes (front ++ back)) (good ∧ good') (expressions ++ expressions') := by
  rw [declaredNodes_append, ← List.append_assoc]
  exact h.andThen h' fun a ha b hb => hapart a ha b (List.mem_append_left _ hb)

end Checks

/-! ## Occurrences and their surroundings -/

@[simp] theorem allStand_cons {r : Resolution} {o : Occurrence} {occurrences : List Occurrence} :
    AllStand r (o :: occurrences) ↔
      (∃ symbol, r.Stands o.env o.mark.id symbol) ∧ AllStand r occurrences := by
  simp [AllStand]

@[simp] theorem allStand_append {r : Resolution} {front back : List Occurrence} :
    AllStand r (front ++ back) ↔ AllStand r front ∧ AllStand r back := by
  simp [AllStand, or_imp, forall_and]

/-- Nothing is visible around a program. -/
theorem surrounded_nil : Surrounded [] [] [] :=
  ⟨fun d hd => by simp [Env.Visible] at hd, fun d hd => by simp [Env.Visible] at hd⟩

theorem Surrounded.visit {env : Env} {visited avoid : List Nat} (h : Surrounded env visited avoid)
    (more : List Nat) : Surrounded env (visited ++ more) avoid :=
  ⟨h.plain, fun d hd => (h.reached d hd).imp_left (List.mem_append_left more)⟩

/-- More declarations of the list that is being checked, or of a list that has been checked. -/
theorem Surrounded.append {before more : List Declared} {outer : Env} {visited visited' avoid : List Nat}
    (h : Surrounded (before :: outer) visited []) (hsub : ∀ n ∈ visited, n ∈ visited')
    (hplain : ∀ d ∈ more, d.kind.isPlain = true)
    (hreached : ∀ d ∈ more, d.node ∈ visited' ∨ d.node ∈ avoid) :
    Surrounded ((before ++ more) :: outer) visited' avoid where
  plain d hd := by
    rcases Env.visible_append.1 hd with hd | hd
    · exact hplain d hd
    · exact h.plain d hd
  reached d hd := by
    rcases Env.visible_append.1 hd with hd | hd
    · exact hreached d hd
    · exact .inl (hsub _ ((h.reached d hd).resolve_right (by simp)))

/-- The list of a `let` is empty at its start. -/
theorem Surrounded.openList {env : Env} {visited : List Nat} (h : Surrounded env visited []) :
    Surrounded ([] :: env) visited [] := by
  constructor
  · intro d hd
    exact h.plain d (by simpa [Env.visible_cons] using hd)
  · intro d hd
    exact h.reached d (by simpa [Env.visible_cons] using hd)

theorem Decl.isPlain_of_declared {d : Decl} {x : Declared} (h : x ∈ d.declared) :
    x.kind.isPlain = true := by
  rcases kind_of_declared h with hkind | hkind <;> rw [hkind] <;> rfl

/-- The declarations of a list that have been checked can be used in what follows. -/
theorem Surrounded.appendDecl {before : List Declared} {outer : Env} {visited : List Nat}
    (h : Surrounded (before :: outer) visited []) (d : Decl) :
    Surrounded ((before ++ d.declared) :: outer) (visited ++ declaredNodes d.declared) [] :=
  h.append (fun _ hn => List.mem_append_left _ hn) (fun _ => Decl.isPlain_of_declared)
    fun _ hd => .inl (List.mem_append_right _ (List.mem_map_of_mem hd))

end TriLang
