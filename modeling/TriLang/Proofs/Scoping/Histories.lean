import Mathlib.Data.List.Infix
import TriLang.Scope.Stack

/-! # Histories of a scope stack

A history lists the operations made on a scope stack that was empty at first, whether they failed or not. It
tells which scopes are open: those that were opened at some time and not closed by what came `inside`
(`OpenSince`). And it tells what such a scope holds: the entries made while it was the innermost one, the first
of each name (`held?`).

What is done between opening a scope and closing it does not touch the scopes around it (`run_append_scopes`),
so they are found as they were. One lemma for each operation shows that the stack holds what its history says
(`Shows.step`), and a look-up then finds the innermost scope that has the name. `laws_of_history` puts this
together. -/
namespace TriLang.ScopeStack
set_option autoImplicit false

/-! ## Operations -/

inductive Op where
  | openScope
  | closeScope
  | enter (name : String) (symbol : Nat)
  | retrieve (name : String)
  | retrieveLocal (name : String)
deriving DecidableEq

/-- Whether an operation succeeds, and the stack behind it. -/
def Op.perform (s : ScopeStack) : Op → Bool × ScopeStack
  | openScope => (true, s.openScope)
  | closeScope => (s.closeScope.1.isOk, s.closeScope.2)
  | enter name symbol => s.enter name symbol
  | retrieve _ => (true, s)
  | retrieveLocal _ => (true, s)

def step (s : ScopeStack) (op : Op) : ScopeStack := (op.perform s).2

def run (s : ScopeStack) (ops : List Op) : ScopeStack := ops.foldl step s

/-! ## What a history says -/

/-- At no time have the operations closed more scopes than they have opened and `spare` further ones. -/
def ClosesWithin (spare : Nat) (ops : List Op) : Prop :=
  ∀ front, front <+: ops → front.count .closeScope ≤ front.count .openScope + spare

/-- The operations close the scopes that they open, and no other one. -/
def Balanced (ops : List Op) : Prop :=
  ClosesWithin 0 ops ∧ ops.count .closeScope = ops.count .openScope

/-- A scope that is still open was opened just before the operations `inside`. -/
def OpenSince (history inside : List Op) : Prop :=
  ∃ before, history = before ++ .openScope :: inside ∧ ClosesWithin 0 inside

instance (spare : Nat) (ops : List Op) : Decidable (ClosesWithin spare ops) :=
  decidable_of_iff (∀ front ∈ ops.inits, front.count .closeScope ≤ front.count .openScope + spare)
    (by simp [ClosesWithin])

instance (ops : List Op) : Decidable (Balanced ops) := by
  unfold Balanced
  infer_instance

/-- The entries that operations make in a scope, in the order in which they make them, if `level` further
scopes are open inside that scope at first. -/
def entries (level : Nat) : List Op → Bindings
  | [] => []
  | .openScope :: ops => entries (level + 1) ops
  | .closeScope :: ops => entries (level - 1) ops
  | .enter name symbol :: ops =>
    if level = 0 then (name, symbol) :: entries level ops else entries level ops
  | .retrieve _ :: ops => entries level ops
  | .retrieveLocal _ :: ops => entries level ops

/-- The symbol of a name in a scope, given the operations since it was opened. The first entry of a name
counts. -/
def held? (inside : List Op) (name : String) : Option Nat := (entries 0 inside).lookup name

/-! ## Counting scopes -/

theorem closesWithin_append {spare : Nat} {front back : List Op} :
    ClosesWithin spare (front ++ back) ↔ ClosesWithin spare front ∧
      ClosesWithin (front.count .openScope + spare - front.count .closeScope) back := by
  constructor
  · intro h
    refine ⟨fun part hpart => h part (hpart.trans (List.prefix_append _ _)), fun part hpart => ?_⟩
    have hall := h (front ++ part) ((List.prefix_append_right_inj front).2 hpart)
    rw [List.count_append, List.count_append] at hall
    omega
  · rintro ⟨hfront, hback⟩ part ⟨more, hmore⟩
    rcases List.append_eq_append_iff.1 hmore with ⟨rest, rfl, -⟩ | ⟨rest, rfl, hrest⟩
    · exact hfront part (List.prefix_append _ _)
    · have hwhole := hfront front (List.prefix_refl _)
      have hpart := hback rest ⟨more, hrest.symm⟩
      rw [List.count_append, List.count_append]
      omega

theorem closesWithin_open {spare : Nat} {ops : List Op} :
    ClosesWithin spare (.openScope :: ops) ↔ ClosesWithin (spare + 1) ops := by
  constructor
  · intro h front hfront
    have hall := h (.openScope :: front) (List.cons_prefix_cons.2 ⟨rfl, hfront⟩)
    rw [List.count_cons_self, List.count_cons_of_ne (by simp)] at hall
    omega
  · intro h front hfront
    rcases List.prefix_cons_iff.1 hfront with rfl | ⟨rest, rfl, hrest⟩
    · exact Nat.zero_le _
    · have hall := h rest hrest
      rw [List.count_cons_self, List.count_cons_of_ne (by simp)]
      omega

theorem ClosesWithin.behind_close {spare : Nat} {ops : List Op}
    (h : ClosesWithin spare (.closeScope :: ops)) : ∃ k, spare = k + 1 ∧ ClosesWithin k ops := by
  have hcount : ∀ front, front <+: ops →
      front.count .closeScope + 1 ≤ front.count .openScope + spare := by
    intro front hfront
    have hall := h (.closeScope :: front) (List.cons_prefix_cons.2 ⟨rfl, hfront⟩)
    rwa [List.count_cons_self, List.count_cons_of_ne (by simp)] at hall
  have hfirst : 1 ≤ spare := by simpa using hcount [] List.nil_prefix
  refine ⟨spare - 1, by omega, fun front hfront => ?_⟩
  have hall := hcount front hfront
  omega

theorem ClosesWithin.mono {spare more : Nat} {ops : List Op} (h : ClosesWithin spare ops)
    (hmore : spare ≤ more) : ClosesWithin more ops :=
  fun front hfront => Nat.le_trans (h front hfront) (Nat.add_le_add_left hmore _)

theorem ClosesWithin.behind {spare : Nat} {op : Op} {ops : List Op}
    (h : ClosesWithin spare (op :: ops)) (hopen : op ≠ .openScope) : ClosesWithin spare ops := by
  intro front hfront
  have hall := h (op :: front) (List.cons_prefix_cons.2 ⟨rfl, hfront⟩)
  rw [List.count_cons_of_ne hopen] at hall
  exact Nat.le_trans List.count_le_count_cons hall

theorem closesWithin_singleton {spare : Nat} {op : Op} (h : op ≠ .closeScope ∨ 0 < spare) :
    ClosesWithin spare [op] := by
  intro front hfront
  have hle := hfront.sublist.count_le .closeScope
  rcases h with hop | hspare
  · rw [List.count_singleton, if_neg (by simpa using hop)] at hle
    omega
  · have hone : [op].count .closeScope ≤ 1 := List.count_le_length
    omega

theorem balanced_append {front back : List Op} (hfront : Balanced front) (hback : Balanced back) :
    Balanced (front ++ back) := by
  refine ⟨closesWithin_append.2 ⟨hfront.1, ?_⟩, ?_⟩
  · rw [hfront.2, Nat.add_zero, Nat.sub_self]
    exact hback.1
  · rw [List.count_append, List.count_append, hfront.2, hback.2]

/-- What opens no scope and closes none is balanced. -/
theorem balanced_singleton {op : Op} (hopen : op ≠ .openScope) (hclose : op ≠ .closeScope) :
    Balanced [op] := by
  refine ⟨closesWithin_singleton (.inl hclose), ?_⟩
  rw [List.count_singleton, List.count_singleton, if_neg (by simpa using hclose),
    if_neg (by simpa using hopen)]

/-- A scope that is opened, used and closed. -/
theorem balanced_block {inside : List Op} (h : Balanced inside) :
    Balanced (.openScope :: (inside ++ [.closeScope])) := by
  refine ⟨closesWithin_open.2 (closesWithin_append.2 ⟨h.1.mono (Nat.zero_le _), ?_⟩), ?_⟩
  · rw [h.2, Nat.add_sub_cancel_left]
    exact closesWithin_singleton (.inr Nat.one_pos)
  · simp [h.2]

/-- No scope that was opened in balanced operations is still open. -/
theorem Balanced.not_openSince {ops : List Op} (h : Balanced ops) (inside : List Op) :
    ¬ OpenSince ops inside := by
  rintro ⟨before, rfl, hinside⟩
  have hbefore := h.1 before (List.prefix_append _ _)
  have hwhole := hinside inside (List.prefix_refl _)
  have hcount := h.2
  simp only [List.count_append, List.count_cons_self, List.count_cons, beq_iff_eq, reduceCtorEq,
    if_false] at hcount
  omega

/-! ## Entering -/

section
variable {scope : Bindings} {name : String}

theorem enter_bound {bound : Nat} (h : scope.lookup name = some bound) (outer : List Bindings)
    (symbol : Nat) : enter ⟨scope :: outer⟩ name symbol = (false, ⟨scope :: outer⟩) := by
  simp [enter, h]

theorem enter_free (h : scope.lookup name = none) (outer : List Bindings) (symbol : Nat) :
    enter ⟨scope :: outer⟩ name symbol = (true, ⟨((name, symbol) :: scope) :: outer⟩) := by
  simp [enter, h]

end

/-! ## Scopes around a run -/

theorem step_append_scopes {top : List Bindings} (htop : top ≠ []) (outer : List Bindings) (op : Op) :
    step ⟨top ++ outer⟩ op = ⟨(step ⟨top⟩ op).scopes ++ outer⟩ := by
  obtain ⟨scope, rest, rfl⟩ := List.exists_cons_of_ne_nil htop
  cases op with
  | enter name symbol =>
    rw [step, step, Op.perform, Op.perform, List.cons_append]
    cases hlookup : scope.lookup name with
    | some bound => rw [enter_bound hlookup, enter_bound hlookup, List.cons_append]
    | none => rw [enter_free hlookup, enter_free hlookup, List.cons_append]
  | _ => rfl

theorem length_step {top : List Bindings} (htop : top ≠ []) (op : Op) :
    (step ⟨top⟩ op).scopes.length + [op].count .closeScope = top.length + [op].count .openScope := by
  obtain ⟨scope, rest, rfl⟩ := List.exists_cons_of_ne_nil htop
  cases op with
  | enter name symbol =>
    rw [step, Op.perform]
    cases hlookup : scope.lookup name with
    | some bound =>
      rw [enter_bound hlookup]
      rfl
    | none =>
      rw [enter_free hlookup]
      rfl
  | _ => rfl

/-- Operations that never close the last of the topmost scopes do not touch what is below these. -/
theorem run_append_scopes {spare : Nat} {ops : List Op} (h : ClosesWithin spare ops)
    {top : List Bindings} (htop : top.length = spare + 1) (outer : List Bindings) :
    run ⟨top ++ outer⟩ ops = ⟨(run ⟨top⟩ ops).scopes ++ outer⟩ ∧
      (run ⟨top⟩ ops).scopes.length + ops.count .closeScope = top.length + ops.count .openScope := by
  induction ops generalizing spare top with
  | nil => exact ⟨rfl, rfl⟩
  | cons op ops ih =>
    have hne : top ≠ [] := List.ne_nil_of_length_pos (by omega)
    rw [← List.singleton_append, closesWithin_append] at h
    have hone := h.1 [op] (List.prefix_refl _)
    have hlength := length_step hne op
    have hrest := ih h.2 (show (step ⟨top⟩ op).scopes.length = _ + 1 by omega)
    have hdepth : (run (step ⟨top⟩ op) ops).scopes.length + ops.count .closeScope =
        (step ⟨top⟩ op).scopes.length + ops.count .openScope := hrest.2
    refine ⟨?_, ?_⟩
    · change run (step ⟨top ++ outer⟩ op) ops = _
      rw [step_append_scopes hne]
      exact hrest.1
    · rw [← List.singleton_append, List.count_append, List.count_append]
      change (run (step ⟨top⟩ op) ops).scopes.length + _ = _
      omega

/-- Closing a scope after a balanced run gives back the stack from before it was opened. -/
theorem Balanced.restores {ops : List Op} (h : Balanced ops) (s : ScopeStack) :
    (s.openScope.run ops).closeScope = (.ok (), s) := by
  obtain ⟨hrun, hlength⟩ := run_append_scopes h.1 (show [([] : Bindings)].length = 0 + 1 from rfl) s.scopes
  have hcount := h.2
  obtain ⟨scope, hscope⟩ : ∃ scope, (run ⟨[[]]⟩ ops).scopes = [scope] := by
    refine List.length_eq_one_iff.1 ?_
    rw [List.length_singleton] at hlength
    omega
  have hopened : s.openScope.run ops = ⟨scope :: s.scopes⟩ := by
    change run ⟨[[]] ++ s.scopes⟩ ops = _
    rw [hrun, hscope]
    rfl
  rw [hopened]
  rfl

/-! ## What a scope holds -/

theorem entries_append {level : Nat} {front : List Op} (h : ClosesWithin level front)
    (back : List Op) : entries level (front ++ back) = entries level front ++
      entries (front.count .openScope + level - front.count .closeScope) back := by
  induction front generalizing level with
  | nil => simp [entries]
  | cons op front ih =>
    cases op with
    | openScope =>
      rw [List.cons_append, entries, entries, ih (closesWithin_open.1 h), List.count_cons_self,
        List.count_cons_of_ne (by simp), Nat.add_right_comm, Nat.add_assoc]
    | closeScope =>
      obtain ⟨k, rfl, hrest⟩ := h.behind_close
      rw [List.cons_append, entries, entries, Nat.add_sub_cancel, ih hrest, List.count_cons_self,
        List.count_cons_of_ne (by simp), ← Nat.add_assoc, Nat.add_sub_add_right]
    | enter name symbol =>
      rw [List.cons_append, entries, entries, ih (h.behind (by simp)),
        List.count_cons_of_ne (by simp), List.count_cons_of_ne (by simp)]
      split
      · rfl
      · rfl
    | retrieve name => simpa [entries] using ih (h.behind (by simp))
    | retrieveLocal name => simpa [entries] using ih (h.behind (by simp))

/-- Nothing is entered into a scope while a scope inside it is open. -/
theorem entries_inside {level : Nat} {ops : List Op} (h : ClosesWithin level ops) :
    entries (level + 1) ops = [] := by
  induction ops generalizing level with
  | nil => rfl
  | cons op ops ih =>
    cases op with
    | openScope => exact ih (closesWithin_open.1 h)
    | closeScope =>
      obtain ⟨k, rfl, hrest⟩ := h.behind_close
      exact ih hrest
    | enter name symbol =>
      rw [entries, if_neg (Nat.succ_ne_zero level)]
      exact ih (h.behind (by simp))
    | retrieve name => exact ih (h.behind (by simp))
    | retrieveLocal name => exact ih (h.behind (by simp))

theorem held?_append {inside : List Op} (h : Balanced inside) (back : List Op) (name : String) :
    held? (inside ++ back) name = (held? inside name).or (held? back name) := by
  rw [held?, entries_append h.1, h.2, Nat.add_zero, Nat.sub_self, List.lookup_append]
  rfl

/-- A scope has got nothing from what was done since a scope inside it was opened, if that one is open. -/
theorem held?_append_open {front inside : List Op} (hfront : ClosesWithin 0 front)
    (hinside : ClosesWithin 0 inside) (name : String) :
    held? (front ++ .openScope :: inside) name = held? front name := by
  rw [held?, entries_append hfront, entries, entries_inside (hinside.mono (Nat.zero_le _)),
    List.append_nil]
  rfl

theorem held?_block {inside : List Op} (h : Balanced inside) (name : String) :
    held? (.openScope :: (inside ++ [.closeScope])) name = none := by
  have hnone : entries 0 (.openScope :: (inside ++ [.closeScope])) = [] := by
    rw [entries, entries_append (h.1.mono (Nat.zero_le _)), entries_inside h.1]
    rfl
  rw [held?, hnone]
  rfl

/-! ## Open scopes -/

theorem openSince_append {front back since : List Op} :
    OpenSince (front ++ back) since ↔ OpenSince back since ∨ ∃ early, OpenSince front early ∧
      since = early ++ back ∧ ClosesWithin 0 (early ++ back) := by
  constructor
  · rintro ⟨before, hsplit, hsince⟩
    rcases List.append_eq_append_iff.1 hsplit with ⟨rest, rfl, hrest⟩ | ⟨rest, rfl, hrest⟩
    · exact .inl ⟨rest, hrest, hsince⟩
    · cases rest with
      | nil => exact .inl ⟨[], hrest.symm, hsince⟩
      | cons op early =>
        obtain ⟨rfl, rfl⟩ := List.cons.inj hrest
        exact .inr ⟨early, ⟨before, rfl, (closesWithin_append.1 hsince).1⟩, rfl, hsince⟩
  · rintro (⟨before, rfl, hsince⟩ | ⟨early, ⟨before, rfl, hearly⟩, rfl, hsince⟩)
    · exact ⟨front ++ before, (List.append_assoc _ _ _).symm, hsince⟩
    · exact ⟨before, by simp, hsince⟩

/-- Behind an opening and balanced operations, what is open is the scope that was opened there and what was
open before. -/
theorem openSince_scope {before inside : List Op} (h : Balanced inside) {since : List Op} :
    OpenSince (before ++ .openScope :: inside) since ↔
      since = inside ∨ ∃ early, OpenSince before early ∧ since = early ++ .openScope :: inside := by
  have hlast : OpenSince (.openScope :: inside) since ↔ since = inside := by
    constructor
    · rintro ⟨start, hsplit, hsince⟩
      cases start with
      | nil => exact (List.cons.inj hsplit).2.symm
      | cons op start => exact absurd ⟨start, (List.cons.inj hsplit).2, hsince⟩ (h.not_openSince since)
    · rintro rfl
      exact ⟨[], rfl, h.1⟩
  rw [openSince_append, hlast]
  refine or_congr_right (exists_congr fun early => and_congr_right fun hearly => ?_)
  obtain ⟨start, -, hearly⟩ := hearly
  refine and_iff_left (closesWithin_append.2 ⟨hearly, closesWithin_open.2 ?_⟩)
  exact h.1.mono (Nat.zero_le _)

/-- The scopes are those that the history has left open, innermost first, and hold what it has entered. -/
inductive Shows : List Op → List Bindings → Prop where
  | closed {history : List Op} (h : ∀ since, ¬ OpenSince history since) : Shows history []
  | within {before inside : List Op} {scope : Bindings} {outer : List Bindings}
    (hinside : Balanced inside) (hscope : ∀ name, scope.lookup name = held? inside name)
    (houter : Shows before outer) : Shows (before ++ .openScope :: inside) (scope :: outer)

section
variable {history : List Op} {scopes : List Bindings}

/-- What leaves nothing behind in any scope is not seen. -/
theorem Shows.append_block (h : Shows history scopes) {block : List Op} (hblock : Balanced block)
    (hnone : ∀ name, held? block name = none) : Shows (history ++ block) scopes := by
  cases h with
  | closed hclosed =>
    refine .closed fun since hsince => ?_
    rcases openSince_append.1 hsince with hsince | ⟨early, hearly, -⟩
    · exact hblock.not_openSince since hsince
    · exact hclosed early hearly
  | @within before inside scope outer hinside hscope houter =>
    rw [List.append_assoc, List.cons_append]
    refine .within (balanced_append hinside hblock) (fun name => ?_) houter
    rw [hscope, held?_append hinside, hnone, Option.or_none]

/-- Where no scope is open, none is open after an operation that opens none. -/
theorem Shows.append_closed (h : ∀ since, ¬ OpenSince history since) {op : Op} (hop : op ≠ .openScope) :
    Shows (history ++ [op]) [] := by
  refine .closed fun since hsince => ?_
  rcases openSince_append.1 hsince with ⟨start, hstart, -⟩ | ⟨early, hearly, -⟩
  · cases start with
    | nil => exact hop (List.cons.inj hstart).1
    | cons first start => simp at hstart
  · exact h early hearly

/-- An entry adds a binding to the innermost scope, unless the scope has one of that name. -/
theorem exists_step_enter (scope : Bindings) (outer : List Bindings) (name : String) (symbol : Nat) :
    ∃ entered : Bindings, step ⟨scope :: outer⟩ (.enter name symbol) = ⟨entered :: outer⟩ ∧
      ∀ other, entered.lookup other = (scope.lookup other).or (List.lookup other [(name, symbol)]) := by
  rw [step, Op.perform]
  cases hbound : scope.lookup name with
  | some bound =>
    refine ⟨scope, by rw [enter_bound hbound], fun other => ?_⟩
    by_cases hother : other = name
    · rw [hother, hbound, Option.some_or]
    · rw [List.lookup_cons, beq_false_of_ne hother, List.lookup_nil, Option.or_none]
  | none =>
    refine ⟨(name, symbol) :: scope, by rw [enter_free hbound], fun other => ?_⟩
    by_cases hother : other = name
    · rw [hother, hbound, Option.none_or, List.lookup_cons_self, List.lookup_cons_self]
    · rw [List.lookup_cons, List.lookup_cons, beq_false_of_ne hother, List.lookup_nil, Option.or_none]

theorem Shows.step (h : Shows history scopes) (op : Op) :
    Shows (history ++ [op]) (step ⟨scopes⟩ op).scopes := by
  cases op with
  | openScope => exact .within ⟨fun _ hfront => by simp [List.prefix_nil.1 hfront], rfl⟩ (fun _ => rfl) h
  | closeScope =>
    cases h with
    | closed hclosed => exact append_closed hclosed (by simp)
    | within hinside hscope houter =>
      rw [List.append_assoc, List.cons_append]
      exact houter.append_block (balanced_block hinside) (held?_block hinside)
  | enter name symbol =>
    cases h with
    | closed hclosed => exact append_closed hclosed (by simp)
    | @within before inside scope outer hinside hscope houter =>
      have hentry : Balanced (inside ++ [.enter name symbol]) :=
        balanced_append hinside (balanced_singleton (by simp) (by simp))
      obtain ⟨entered, hstep, hentered⟩ := exists_step_enter scope outer name symbol
      rw [hstep, List.append_assoc, List.cons_append]
      refine .within hentry (fun other => ?_) houter
      rw [hentered, hscope, held?_append hinside]
      rfl
  | retrieve name => exact h.append_block (balanced_singleton (by simp) (by simp)) fun _ => rfl
  | retrieveLocal name => exact h.append_block (balanced_singleton (by simp) (by simp)) fun _ => rfl

theorem shows_run (history : List Op) : Shows history (empty.run history).scopes := by
  induction history using List.reverseRecOn with
  | nil => exact .closed fun since ⟨start, hstart, _⟩ => by simp at hstart
  | append_singleton history op ih =>
    rw [run, List.foldl_concat]
    exact ih.step op

/-- A look-up answers with what the innermost open scope holds that has the name. -/
theorem Shows.retrieve?_iff (h : Shows history scopes) (name : String) (symbol : Nat) :
    retrieve? ⟨scopes⟩ name = some symbol ↔ ∃ since, OpenSince history since ∧
      held? since name = some symbol ∧ ∀ later, OpenSince since later → held? later name = none := by
  induction h with
  | closed hclosed =>
    refine iff_of_false (by simp [retrieve?]) ?_
    rintro ⟨since, hsince, -⟩
    exact hclosed since hsince
  | @within before inside scope outer hinside hscope houter ih =>
    have hlookup : retrieve? ⟨scope :: outer⟩ name =
        (held? inside name).or (retrieve? ⟨outer⟩ name) := by
      rw [← hscope, retrieve?, List.findSome?_cons]
      cases scope.lookup name <;> rfl
    rw [hlookup]
    cases hheld : held? inside name with
    | some bound =>
      rw [Option.some_or]
      constructor
      · intro hbound
        refine ⟨inside, (openSince_scope hinside).2 (.inl rfl), hheld.trans hbound, fun later hlater => ?_⟩
        exact absurd hlater (hinside.not_openSince later)
      · rintro ⟨since, hsince, hsymbol, hinner⟩
        rcases (openSince_scope hinside).1 hsince with rfl | ⟨early, -, rfl⟩
        · exact hheld.symm.trans hsymbol
        · have hnone := hinner inside ((openSince_scope hinside).2 (.inl rfl))
          rw [hheld] at hnone
          cases hnone
    | none =>
      rw [Option.none_or, ih]
      constructor
      · rintro ⟨early, hearly, hsymbol, hinner⟩
        refine ⟨_, (openSince_scope hinside).2 (.inr ⟨early, hearly, rfl⟩), ?_, fun later hlater => ?_⟩
        · obtain ⟨-, -, hwithin⟩ := hearly
          rwa [held?_append_open hwithin hinside.1]
        · rcases (openSince_scope hinside).1 hlater with rfl | ⟨late, hlate, rfl⟩
          · exact hheld
          · rw [held?_append_open hlate.choose_spec.2 hinside.1]
            exact hinner late hlate
      · rintro ⟨since, hsince, hsymbol, hinner⟩
        rcases (openSince_scope hinside).1 hsince with rfl | ⟨early, hearly, rfl⟩
        · rw [hheld] at hsymbol
          cases hsymbol
        · have hwithin := hearly.choose_spec.2
          rw [held?_append_open hwithin hinside.1] at hsymbol
          refine ⟨early, hearly, hsymbol, fun late hlate => ?_⟩
          rw [← held?_append_open hlate.choose_spec.2 hinside.1]
          exact hinner _ ((openSince_scope hinside).2 (.inr ⟨late, hlate, rfl⟩))

end

/-! ## The laws -/

/-- Closing fails where no scope is open, entering also where the innermost scope has the name. -/
theorem perform_fails_iff (s : ScopeStack) (op : Op) : (op.perform s).1 = false ↔
    op = .closeScope ∧ s.depth = 0 ∨
      ∃ name symbol, op = .enter name symbol ∧ (s.depth = 0 ∨ s.retrieveLocal? name ≠ none) := by
  obtain ⟨scopes⟩ := s
  cases op with
  | closeScope => cases scopes <;> simp [Op.perform, closeScope, depth, Except.isOk, Except.toBool]
  | enter name symbol =>
    cases scopes with
    | nil => simp [Op.perform, enter, depth]
    | cons scope outer =>
      have henter : (enter ⟨scope :: outer⟩ name symbol).1 = false ↔ scope.lookup name ≠ none := by
        cases hlookup : scope.lookup name with
        | some bound => simp only [enter_bound hlookup, ne_eq, reduceCtorEq, not_false_iff]
        | none => simp only [enter_free hlookup, ne_eq, reduceCtorEq, not_true]
      simp [Op.perform, henter, depth, retrieveLocal?]
  | _ => simp [Op.perform]

/-- An operation that fails leaves the stack as it was. -/
theorem perform_of_fails {s : ScopeStack} {op : Op} (h : (op.perform s).1 = false) :
    (op.perform s).2 = s := by
  obtain ⟨scopes⟩ := s
  cases op with
  | closeScope =>
    cases scopes with
    | nil => rfl
    | cons scope outer => exact absurd h (by simp [Op.perform, closeScope, Except.isOk, Except.toBool])
  | enter name symbol =>
    cases scopes with
    | nil => rfl
    | cons scope outer =>
      rw [Op.perform] at h ⊢
      cases hlookup : scope.lookup name with
      | some bound => rw [enter_bound hlookup]
      | none =>
        rw [enter_free hlookup] at h
        cases h
  | _ => exact absurd h (by simp [Op.perform])

/-- A name that was entered is found, and the others are found as before. -/
theorem retrieve?_enter {s : ScopeStack} {name : String} {symbol : Nat}
    (h : (s.enter name symbol).1 = true) (other : String) :
    (s.enter name symbol).2.retrieve? other = if other = name then some symbol else s.retrieve? other := by
  obtain ⟨scopes⟩ := s
  cases scopes with
  | nil => simp [enter] at h
  | cons scope outer =>
    cases hlookup : scope.lookup name with
    | some bound =>
      rw [enter_bound hlookup] at h
      cases h
    | none =>
      rw [enter_free hlookup]
      by_cases hother : other = name
      · rw [if_pos hother, hother, retrieve?, List.findSome?_cons, List.lookup_cons_self]
      · rw [if_neg hother, retrieve?, retrieve?, List.findSome?_cons, List.findSome?_cons,
          List.lookup_cons, beq_false_of_ne hother]

/-- After every history: what is done in a scope that is closed again leaves no trace; a look-up answers with
what the scope holds that was opened last among those that are still open and have the name; an operation fails
only where it has to, and leaves the stack as it was; and an entry is seen by look-ups of its name only. -/
theorem laws_of_history (history : List Op) :
    let s := empty.run history
    (∀ ops, Balanced ops → (s.openScope.run ops).closeScope = (.ok (), s)) ∧
    (∀ name symbol, s.retrieve? name = some symbol ↔ ∃ since, OpenSince history since ∧
      held? since name = some symbol ∧ ∀ later, OpenSince since later → held? later name = none) ∧
    (∀ op : Op, ((op.perform s).1 = false ↔ op = .closeScope ∧ s.depth = 0 ∨
      ∃ name symbol, op = .enter name symbol ∧ (s.depth = 0 ∨ s.retrieveLocal? name ≠ none)) ∧
      ((op.perform s).1 = false → (op.perform s).2 = s)) ∧
    ∀ name symbol, (s.enter name symbol).1 = true →
      (s.enter name symbol).2.retrieve? name = some symbol ∧
      ∀ other, other ≠ name → (s.enter name symbol).2.retrieve? other = s.retrieve? other := by
  intro s
  refine ⟨fun ops hops => hops.restores s, (shows_run history).retrieve?_iff,
    fun op => ⟨perform_fails_iff s op, perform_of_fails⟩, fun name symbol h => ?_⟩
  refine ⟨?_, fun other hother => ?_⟩
  · rw [retrieve?_enter h, if_pos rfl]
  · rw [retrieve?_enter h, if_neg hother]

/-- The names `x` and `y` are bound in scopes around each other. The operations in between enter both again,
one of them twice, and one of them in a scope of its own. -/
theorem laws_of_history_shadowed :
    let s := empty.run [.openScope, .enter "x" 1, .closeScope, .closeScope, .openScope, .enter "x" 2,
      .openScope, .enter "y" 3]
    let ops : List Op := [.enter "x" 4, .enter "x" 5, .openScope, .enter "y" 6, .closeScope, .retrieve "y"]
    (Balanced ops ∧ (s.openScope.run ops).closeScope = (.ok (), s)) ∧
    ((Op.perform s (.enter "y" 7)).1 = false ∧ (Op.perform s (.enter "y" 7)).2 = s) ∧
    (s.enter "x" 8).1 = true ∧
      ∀ other, other ≠ "x" → (s.enter "x" 8).2.retrieve? other = s.retrieve? other := by
  intro s ops
  have hlaws := laws_of_history [.openScope, .enter "x" 1, .closeScope, .closeScope, .openScope,
    .enter "x" 2, .openScope, .enter "y" 3]
  have hbalanced : Balanced ops := by decide
  have hfails : (Op.perform s (.enter "y" 7)).1 = false := rfl
  have henter : (s.enter "x" 8).1 = true := rfl
  exact ⟨⟨hbalanced, hlaws.1 ops hbalanced⟩, ⟨hfails, (hlaws.2.2.1 _).2 hfails⟩, henter,
    (hlaws.2.2.2 _ _ henter).2⟩

end TriLang.ScopeStack
