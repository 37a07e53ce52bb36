import TriLang.Proofs.Scoping.Registration
import TriLang.Proofs.Syntax.Parts

/-! # Runs of resolution

Resolution does four things: it applies a leaf, declares a name, opens a scope and closes one. What a list of
such events does to the tables is proved along the list, whatever tree it comes from:

  * entries are written at the applied leaves and at the declarations, and at no other nodes;
  * if no declaration comes twice, the declarations are numbered as they come (`Resolving.run_numbers`);
  * every entry and every binding is the number of a symbol, and no binding is the unknown symbol
    (`Resolving.InRange`);
  * if no leaf comes twice, the undefined symbols that are reported are those of the leaves that are bound to
    the unknown symbol in the end, one by one (`Resolving.run_undefined`). -/
namespace TriLang
set_option autoImplicit false

namespace Resolving

inductive Event where
  | apply (leaf : Leaf)
  | declare (d : Declared)
  | openScope
  | closeScope

def step (s : Resolving) : Event → Resolving
  | .apply leaf => s.apply leaf.toMark leaf.spelling
  | .declare d => s.declare d.node d.name d.kind
  | .openScope => s.openScope
  | .closeScope => s.closeScope

def run (s : Resolving) (events : List Event) : Resolving := events.foldl step s

def Event.leaf? : Event → Option Leaf
  | apply leaf => some leaf
  | _ => none

def Event.declared? : Event → Option Declared
  | declare d => some d
  | _ => none

/-- The leaves that are applied, in that order. -/
def leaves (events : List Event) : List Leaf := events.filterMap Event.leaf?

/-- What is declared, in that order. -/
def declarations (events : List Event) : List Declared := events.filterMap Event.declared?

@[simp] theorem run_nil (s : Resolving) : s.run [] = s := rfl

@[simp] theorem run_cons (s : Resolving) (event : Event) (events : List Event) :
    s.run (event :: events) = (s.step event).run events := rfl

@[simp] theorem run_append (s : Resolving) (front back : List Event) :
    s.run (front ++ back) = (s.run front).run back := List.foldl_append

@[simp] theorem leaves_append (front back : List Event) :
    leaves (front ++ back) = leaves front ++ leaves back := List.filterMap_append

@[simp] theorem declarations_append (front back : List Event) :
    declarations (front ++ back) = declarations front ++ declarations back := List.filterMap_append

section
variable (events : List Event)

@[simp] theorem leaves_nil : leaves [] = [] := rfl
@[simp] theorem leaves_apply (leaf : Leaf) :
    leaves (.apply leaf :: events) = leaf :: leaves events := rfl
@[simp] theorem leaves_declare (d : Declared) : leaves (.declare d :: events) = leaves events := rfl
@[simp] theorem leaves_openScope : leaves (.openScope :: events) = leaves events := rfl
@[simp] theorem leaves_closeScope : leaves (.closeScope :: events) = leaves events := rfl

@[simp] theorem declarations_nil : declarations [] = [] := rfl
@[simp] theorem declarations_apply (leaf : Leaf) :
    declarations (.apply leaf :: events) = declarations events := rfl
@[simp] theorem declarations_declare (d : Declared) :
    declarations (.declare d :: events) = d :: declarations events := rfl
@[simp] theorem declarations_openScope :
    declarations (.openScope :: events) = declarations events := rfl
@[simp] theorem declarations_closeScope :
    declarations (.closeScope :: events) = declarations events := rfl

end

/-! ## What one event writes -/

section
variable (s : Resolving)

theorem apply_resolutions (mark : Mark) (name : String) :
    (s.apply mark name).tables.resolutions = s.tables.resolutions.insert mark.id
      ((s.scopes.retrieve? name).getD SymbolTable.unknown) := by
  unfold apply
  cases s.scopes.retrieve? name <;> rfl

theorem apply_declarations (mark : Mark) (name : String) :
    (s.apply mark name).tables.declarations = s.tables.declarations := by
  unfold apply
  cases s.scopes.retrieve? name <;> rfl

theorem declare_resolutions (d : Declared) :
    (s.declare d.node d.name d.kind).tables.resolutions = s.tables.resolutions := by
  unfold declare
  dsimp only
  split <;> rfl

theorem declare_declarations (d : Declared) :
    (s.declare d.node d.name d.kind).tables.declarations =
      s.tables.declarations.insert d.node s.tables.symbols.size := by
  unfold declare
  dsimp only
  split <;> rfl

end

/-! ## The entries of a run -/

section
variable (events : List Event) (s : Resolving)

theorem getElem?_resolutions_run {n : Nat} (hn : ∀ leaf ∈ leaves events, leaf.id ≠ n) :
    (s.run events).tables.resolutions[n]? = s.tables.resolutions[n]? := by
  induction events generalizing s with
  | nil => rfl
  | cons event events ih =>
    cases event with
    | apply leaf =>
      obtain ⟨hleaf, hn⟩ := List.forall_mem_cons.1 hn
      rw [run_cons, ih _ hn, step, apply_resolutions, Std.TreeMap.getElem?_insert]
      simp [hleaf]
    | declare d => rw [run_cons, ih _ hn, step, declare_resolutions]
    | openScope => exact ih _ hn
    | closeScope => exact ih _ hn

theorem mem_resolutions_run (n : Nat) : n ∈ (s.run events).tables.resolutions ↔
    n ∈ s.tables.resolutions ∨ ∃ leaf ∈ leaves events, leaf.id = n := by
  induction events generalizing s with
  | nil => simp
  | cons event events ih =>
    rw [run_cons, ih]
    cases event with
    | apply leaf =>
      rw [step, apply_resolutions, Std.TreeMap.mem_insert]
      simp [or_assoc, or_left_comm]
    | declare d => rw [step, declare_resolutions, leaves_declare]
    | openScope => rfl
    | closeScope => rfl

theorem mem_declarations_run (n : Nat) : n ∈ (s.run events).tables.declarations ↔
    n ∈ s.tables.declarations ∨ ∃ d ∈ declarations events, d.node = n := by
  induction events generalizing s with
  | nil => simp
  | cons event events ih =>
    rw [run_cons, ih]
    cases event with
    | apply leaf => rw [step, apply_declarations, declarations_apply]
    | declare d =>
      rw [step, declare_declarations, Std.TreeMap.mem_insert]
      simp [or_assoc, or_left_comm]
    | openScope => rfl
    | closeScope => rfl

theorem getElem?_declarations_run {n : Nat} (hn : ∀ d ∈ declarations events, d.node ≠ n) :
    (s.run events).tables.declarations[n]? = s.tables.declarations[n]? := by
  induction events generalizing s with
  | nil => rfl
  | cons event events ih =>
    cases event with
    | apply leaf => rw [run_cons, ih _ hn, step, apply_declarations]
    | declare d =>
      obtain ⟨hd, hn⟩ := List.forall_mem_cons.1 hn
      rw [run_cons, ih _ hn, step, declare_declarations, Std.TreeMap.getElem?_insert]
      simp [hd]
    | openScope => exact ih _ hn
    | closeScope => exact ih _ hn

theorem declare_size (d : Declared) :
    (s.declare d.node d.name d.kind).tables.symbols.size = s.tables.symbols.size + 1 := by
  rw [declare_symbols, SymbolTable.size_introduce]
  rfl

/-- The declarations are numbered one after the other, as they come. -/
theorem run_numbers (hnodup : ((declarations events).map Declared.node).Nodup) {i : Nat}
    {d : Declared} (hd : (declarations events)[i]? = some d) :
    (s.run events).tables.declarations[d.node]? = some (s.tables.symbols.size + i) := by
  induction events generalizing s i with
  | nil => simp at hd
  | cons event events ih =>
    cases event with
    | apply leaf =>
      have hsymbols := s.apply_symbols leaf.toMark leaf.spelling
      rw [run_cons, ih _ hnodup hd, step, hsymbols]
    | declare first =>
      rw [declarations_declare, List.map_cons, List.nodup_cons] at hnodup
      cases i with
      | zero =>
        obtain rfl : first = d := by simpa using hd
        rw [run_cons, getElem?_declarations_run, step, declare_declarations,
          Std.TreeMap.getElem?_insert_self, Nat.add_zero]
        exact fun other hother hnode => hnodup.1 (List.mem_map.2 ⟨other, hother, hnode⟩)
      | succ i =>
        rw [run_cons, ih _ hnodup.2 (by simpa using hd), step, declare_size, Nat.add_assoc,
          Nat.add_comm 1]
    | openScope => exact ih _ hnodup hd
    | closeScope => exact ih _ hnodup hd

end

/-! ## Numbers of symbols -/

/-- Every entry is the number of a symbol, and what a name is bound to is one that is known. -/
structure InRange (s : Resolving) : Prop where
  unknown : SymbolTable.unknown < s.tables.symbols.size
  bindings : ∀ scope ∈ s.scopes.scopes, ∀ b ∈ scope,
    b.2 ≠ SymbolTable.unknown ∧ b.2 < s.tables.symbols.size
  resolutions : ∀ n k : Nat, s.tables.resolutions[n]? = some k → k < s.tables.symbols.size
  declarations : ∀ n k : Nat, s.tables.declarations[n]? = some k → k < s.tables.symbols.size

theorem InRange.retrieve {s : Resolving} (h : s.InRange) {name : String} {symbol : Nat}
    (hname : s.scopes.retrieve? name = some symbol) :
    symbol ≠ SymbolTable.unknown ∧ symbol < s.tables.symbols.size := by
  obtain ⟨scope, hscope, hlookup⟩ := List.exists_of_findSome?_eq_some hname
  obtain ⟨front, back, rfl, -⟩ := List.lookup_eq_some_iff.1 hlookup
  exact h.bindings _ hscope (name, symbol) (by simp)

theorem InRange.apply {s : Resolving} (h : s.InRange) (mark : Mark) (name : String) :
    (s.apply mark name).InRange := by
  refine ⟨?_, ?_, fun n k hk => ?_, ?_⟩
  · rw [apply_symbols]
    exact h.unknown
  · rw [scopes_apply, apply_symbols]
    exact h.bindings
  · rw [apply_symbols]
    rw [apply_resolutions, Std.TreeMap.getElem?_insert] at hk
    split at hk
    · obtain rfl := Option.some.inj hk
      cases hname : s.scopes.retrieve? name with
      | some symbol => exact (h.retrieve hname).2
      | none => exact h.unknown
    · exact h.resolutions n k hk
  · rw [apply_declarations, apply_symbols]
    exact h.declarations

/-- A declaration binds nothing but its own name, to the new symbol. -/
theorem mem_scopes_declare (s : Resolving) (d : Declared) {scope : Bindings}
    (hscope : scope ∈ (s.declare d.node d.name d.kind).scopes.scopes) {b : String × Nat}
    (hb : b ∈ scope) : (∃ before ∈ s.scopes.scopes, b ∈ before) ∨ b.2 = s.tables.symbols.size := by
  cases hscopes : s.scopes.scopes with
  | nil =>
    have hsame : (s.declare d.node d.name d.kind).scopes = s.scopes := by
      simp [declare, introduce, ScopeStack.retrieveLocal?, ScopeStack.enter, hscopes]
    rw [hsame, hscopes] at hscope
    exact absurd hscope List.not_mem_nil
  | cons frame outer =>
    rw [scopes_declare hscopes] at hscope
    split at hscope
    · exact .inl ⟨scope, hscope, hb⟩
    · rcases List.mem_cons.1 hscope with rfl | hscope
      · rcases List.mem_cons.1 hb with rfl | hb
        · exact .inr rfl
        · exact .inl ⟨frame, List.mem_cons_self, hb⟩
      · exact .inl ⟨scope, List.mem_cons_of_mem _ hscope, hb⟩

theorem mem_scopes_of_closeScope {s : Resolving} {scope : Bindings}
    (h : scope ∈ s.closeScope.scopes.scopes) : scope ∈ s.scopes.scopes := by
  cases hscopes : s.scopes.scopes with
  | nil => simp [closeScope, ScopeStack.closeScope, hscopes] at h
  | cons frame outer =>
    have houter : scope ∈ outer := by simpa [closeScope, ScopeStack.closeScope, hscopes] using h
    exact List.mem_cons_of_mem _ houter

theorem InRange.declare {s : Resolving} (h : s.InRange) (d : Declared) :
    (s.declare d.node d.name d.kind).InRange := by
  have hsize := s.declare_size d
  have hunknown := h.unknown
  refine ⟨?_, fun scope hscope b hb => ?_, fun n k hk => ?_, fun n k hk => ?_⟩
  · omega
  · rcases s.mem_scopes_declare d hscope hb with ⟨before, hbefore, hb⟩ | hnew
    · obtain ⟨hknown, hlt⟩ := h.bindings before hbefore b hb
      exact ⟨hknown, by omega⟩
    · exact ⟨by omega, by omega⟩
  · rw [declare_resolutions] at hk
    have hlt := h.resolutions n k hk
    omega
  · rw [declare_declarations, Std.TreeMap.getElem?_insert] at hk
    split at hk
    · obtain rfl := Option.some.inj hk
      omega
    · have hlt := h.declarations n k hk
      omega

theorem InRange.step {s : Resolving} (h : s.InRange) (event : Event) : (s.step event).InRange := by
  cases event with
  | apply leaf => exact h.apply _ _
  | declare d => exact h.declare d
  | openScope =>
    refine ⟨h.unknown, fun scope hscope => ?_, h.resolutions, h.declarations⟩
    rcases List.mem_cons.1 hscope with rfl | hscope
    · simp
    · exact h.bindings scope hscope
  | closeScope =>
    exact ⟨h.unknown, fun scope hscope => h.bindings scope (mem_scopes_of_closeScope hscope),
      h.resolutions, h.declarations⟩

theorem InRange.run {s : Resolving} (h : s.InRange) (events : List Event) :
    (s.run events).InRange := by
  induction events generalizing s with
  | nil => exact h
  | cons event events ih => exact ih (h.step event)

end Resolving

/-! ## Undefined symbols -/

def ResolveError.isUndefined (e : ResolveError) : Bool :=
  match e.cause with
  | .undefined _ => true
  | .duplicate _ _ => false

/-- The report of a leaf that no scope knows. -/
def Leaf.undefined (leaf : Leaf) : ResolveError := ⟨.undefined leaf.spelling, leaf.span⟩

/-- The leaf is bound to the unknown symbol. -/
def Resolution.Misses (r : Resolution) (leaf : Leaf) : Prop :=
  r.resolutions[leaf.id]? = some SymbolTable.unknown

instance (r : Resolution) (leaf : Leaf) : Decidable (r.Misses leaf) :=
  inferInstanceAs (Decidable (r.resolutions[leaf.id]? = some SymbolTable.unknown))

namespace Resolving

theorem apply_errors (s : Resolving) (leaf : Leaf) :
    (s.apply leaf.toMark leaf.spelling).tables.errors = s.tables.errors ++
      if s.scopes.retrieve? leaf.spelling = none then [leaf.undefined] else [] := by
  unfold apply
  cases s.scopes.retrieve? leaf.spelling with
  | some symbol => simp [bind]
  | none => rfl

theorem declare_undefined (s : Resolving) (d : Declared) :
    (s.declare d.node d.name d.kind).tables.errors.filter (·.isUndefined) =
      s.tables.errors.filter (·.isUndefined) := by
  unfold declare
  dsimp only
  split
  · simp [report, introduce, ResolveError.isUndefined]
  · rfl

/-- An applied leaf is missed if and only if no scope knows it. -/
theorem misses_apply {s : Resolving} (hs : s.InRange) (leaf : Leaf) :
    (s.apply leaf.toMark leaf.spelling).tables.Misses leaf ↔
      s.scopes.retrieve? leaf.spelling = none := by
  rw [Resolution.Misses, apply_resolutions, Std.TreeMap.getElem?_insert_self, Option.some.injEq]
  cases hname : s.scopes.retrieve? leaf.spelling with
  | some symbol => simpa using (hs.retrieve hname).1
  | none => simp

theorem run_undefined (events : List Event) {s : Resolving} (hs : s.InRange)
    (hnodup : ((leaves events).map (·.id)).Nodup) :
    (s.run events).tables.errors.filter (·.isUndefined) =
      s.tables.errors.filter (·.isUndefined) ++
        ((leaves events).filter ((s.run events).tables.Misses ·)).map Leaf.undefined := by
  induction events generalizing s with
  | nil => simp
  | cons event events ih =>
    have hstep := hs.step event
    cases event with
    | apply leaf =>
      rw [leaves_apply, List.map_cons, List.nodup_cons] at hnodup
      obtain ⟨hnew, hnodup⟩ := hnodup
      -- Nothing behind the leaf binds it again.
      have hkept : ((s.step (.apply leaf)).run events).tables.Misses leaf ↔
          s.scopes.retrieve? leaf.spelling = none := by
        rw [Resolution.Misses, getElem?_resolutions_run]
        · exact misses_apply hs leaf
        · exact fun other hother hid => hnew (List.mem_map.2 ⟨other, hother, hid⟩)
      rw [run_cons, ih hstep hnodup, leaves_apply, List.filter_cons]
      simp only [decide_eq_true_eq, hkept]
      rw [step, apply_errors, List.filter_append, List.append_assoc]
      split
      · rfl
      · rfl
    | declare d =>
      rw [run_cons, ih hstep hnodup, leaves_declare, step, declare_undefined]
    | openScope => exact ih hstep hnodup
    | closeScope => exact ih hstep hnodup

end Resolving

end TriLang
