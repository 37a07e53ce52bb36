import TriLang.Proofs.Compilation.Declarations
import TriLang.Proofs.Parsing.Numbers
import TriLang.Proofs.Scoping.Walks

/-! # The tables of identification

Whatever errors a text has, the tables that are filled for its tree are complete and hold nothing else
(`resolve_complete`). The parser gives no number twice, so that each applied leaf and each declaration has
an entry of its own, and it reads each leaf from a token of its own, so that an undefined symbol is known by
its span. -/
namespace TriLang
open TriLang.Parser TriLang.Text
set_option autoImplicit false

/-! ## Leaves in the text -/

section
variable {text : List Char}

/-- What was read from a token is not empty. -/
theorem Node.WellPlaced.nonempty {n : Node} (h : n.WellPlaced text) (hn : n.spelling? ≠ none) :
    n.span.start < n.span.stop := by
  obtain ⟨t, ht, hleaf, hspan⟩ := h.token hn
  exact hspan ▸ tokenize_nonempty ht hleaf.kind_ne

/-- A part that is not empty lies in the span of the tree. -/
theorem Node.Contains.inside_span {n m : Node} (hm : n.Contains m)
    (h : n.Throughout (Node.WellPlaced text)) (hne : m.span.start < m.span.stop) :
    n.span.start ≤ m.span.start ∧ m.span.stop ≤ n.span.stop := by
  induction hm with
  | here => exact ⟨Nat.le_refl _, Nat.le_refl _⟩
  | inside hc _ ih =>
    cases h with
    | node here below =>
      obtain ⟨hstart, hstop⟩ := ih (below _ hc) hne
      obtain ⟨hfirst, hlast⟩ := here.inside _ hc
      have hle := hlast (by omega)
      omega

/-- Two parts without children that take up the same piece of the text are the same. -/
theorem Node.Throughout.eq_of_span_eq {n m m' : Node} (h : n.Throughout (Node.WellPlaced text))
    (hm : n.Contains m) (hm' : n.Contains m') (hchildren : m.children = [])
    (hchildren' : m'.children = []) (hspan : m.span = m'.span) (hne : m.span.start < m.span.stop) :
    m = m' := by
  induction h with
  | @node n here below ih =>
    rcases contains_iff.1 hm with hroot | ⟨c, hc, hmc⟩
    · rcases contains_iff.1 hm' with hroot' | ⟨c', hc', -⟩
      · rw [hroot, hroot']
      · simp [← hroot, hchildren] at hc'
    · rcases contains_iff.1 hm' with hroot' | ⟨c', hc', hmc'⟩
      · simp [← hroot', hchildren'] at hc
      · by_cases hcc : c = c'
        · subst hcc
          exact ih c hc hmc hmc'
        · -- The part would lie in two children, and these lie side by side.
          have hin := hmc.inside_span (below c hc) hne
          have hin' := hmc'.inside_span (below c' hc') (hspan ▸ hne)
          have hsides : c.span.stop ≤ c'.span.start ∨ c'.span.stop ≤ c.span.start := by
            have hpairs : n.children.Pairwise fun c d : Node =>
                c.span.stop ≤ d.span.start ∨ d.span.stop ≤ c.span.start := here.apart.imp Or.inl
            have hsymm : Std.Symm fun c d : Node =>
                c.span.stop ≤ d.span.start ∨ d.span.stop ≤ c.span.start := ⟨fun _ _ => Or.symm⟩
            exact hpairs.forall hc hc' hcc
          rw [← hspan] at hin'
          omega

theorem Node.Applies.eq_of_span_eq {n : Node} {leaf leaf' : Leaf}
    (hleaf : n.Applies leaf) (hleaf' : n.Applies leaf') (h : n.Throughout (Node.WellPlaced text))
    (hspan : leaf.span = leaf'.span) : leaf = leaf' := by
  obtain ⟨m, hm, hsome⟩ := hleaf.exists_part
  obtain ⟨m', hm', hsome'⟩ := hleaf'.exists_part
  obtain ⟨hmark, hspelling, hchildren⟩ := leaf?_eq_some hsome
  obtain ⟨hmark', -, hchildren'⟩ := leaf?_eq_some hsome'
  have hne : m.span.start < m.span.stop := (h.of_contains hm).nonempty (by simp [hspelling])
  have hspans : m.span = m'.span := by rw [Node.span, Node.span, hmark, hmark', hspan]
  have hsame := h.eq_of_span_eq hm hm' hchildren hchildren' hspans hne
  rw [hsame, hsome'] at hsome
  exact (Option.some.inj hsome).symm

end

/-! ## Declarations in the tree -/

theorem Node.mem_declares {n : Node} {x : Declared} :
    x ∈ n.declares ↔ ∃ d, n = .decl d ∧ d.Introduces x := by
  constructor
  · intro h
    cases n with
    | decl d =>
      cases d with
      | const m name value =>
        obtain rfl := List.mem_singleton.1 h
        exact ⟨_, rfl, .const m name value⟩
      | var m name type =>
        obtain rfl := List.mem_singleton.1 h
        exact ⟨_, rfl, .var m name type⟩
      | seq m first second => simp [declares] at h
      | error m => simp [declares] at h
    | _ => simp [declares] at h
  · rintro ⟨d, rfl, hd⟩
    cases hd with
    | const m name value => exact List.mem_singleton_self _
    | var m name type => exact List.mem_singleton_self _

/-- What is declared in a tree is what its single declarations introduce. -/
theorem Node.mem_declared {n : Node} {x : Declared} :
    x ∈ n.declared ↔ ∃ d, n.Contains (.decl d) ∧ d.Introduces x := by
  have hstep : ∀ n : Node, x ∈ n.declared ↔ x ∈ n.declares ∨ ∃ c ∈ n.children, x ∈ c.declared := by
    intro n
    rw [declared_eq, List.mem_append, List.mem_flatMap]
  rw [iff_exists_part hstep n]
  constructor
  · rintro ⟨m, hm, hx⟩
    obtain ⟨d, rfl, hd⟩ := mem_declares.1 hx
    exact ⟨d, hm, hd⟩
  · rintro ⟨d, hm, hd⟩
    exact ⟨_, hm, mem_declares.2 ⟨d, rfl, hd⟩⟩

theorem Decl.Introduces.name_mem {d : Decl} {x : Declared} (h : d.Introduces x) :
    .ident x.name ∈ (Node.decl d).children :=
  (Node.name_mem_of_declares (Node.mem_declares.2 ⟨d, rfl, h⟩)).1

theorem Decl.Introduces.node_eq {d : Decl} {x : Declared} (h : d.Introduces x) : x.node = d.mark.id := by
  cases h <;> rfl

/-- The name that a declaration introduces is not an applied occurrence. -/
theorem Node.Applies.id_ne_name {n : Node} {leaf : Leaf} (hleaf : n.Applies leaf)
    (hids : n.ids.Nodup) {d : Decl} {x : Declared} (hd : n.Contains (.decl d)) (hx : d.Introduces x) :
    leaf.id ≠ x.name.id := by
  intro hid
  obtain ⟨m, hm, huses⟩ := hleaf
  obtain ⟨hother, c, hc, hsome⟩ := exists_child_of_uses huses
  have hmark : c.id = (Node.ident x.name).id := by
    rw [Node.id, (leaf?_eq_some hsome).1]
    exact hid
  exact hother d (parent_eq hids hm hd hc hx.name_mem hmark)

/-! ## The start -/

theorem initial_inRange : Resolving.initial.InRange where
  unknown := by decide +kernel
  bindings := by decide +kernel
  resolutions n k h := by
    have hempty : Resolving.initial.tables.resolutions = ∅ := rfl
    simp [hempty] at h
  declarations n k h := by
    have hempty : Resolving.initial.tables.declarations = ∅ := rfl
    simp [hempty] at h

theorem SymbolTable.get?_introduce_of_some {t : SymbolTable} {k : Nat} {symbol : Symbol}
    (h : t.get? k = some symbol) (ds : List Declared) : (t.introduce ds).get? k = some symbol := by
  induction ds generalizing t with
  | nil => exact h
  | cons d ds ih => exact ih (get?_insert_of_some h _ _ _ _)

theorem SymbolTable.get?_introduce_size {t : SymbolTable} {ds : List Declared} {i : Nat}
    {d : Declared} (hd : ds[i]? = some d) :
    (t.introduce ds).get? (t.size + i) = some (d.symbol (t.size + i)) := by
  induction ds generalizing t i with
  | nil => simp at hd
  | cons first ds ih =>
    cases i with
    | zero =>
      obtain rfl : first = d := by simpa using hd
      exact get?_introduce_of_some (get?_insert_size t _ _ _ _) ds
    | succ i =>
      have hrest := ih (t := t.introduce [first]) (by simpa using hd)
      rw [size_introduce, List.length_singleton, Nat.add_assoc, Nat.add_comm 1] at hrest
      exact hrest

/-! ## Entries and reports -/

section
variable {p : Program}

theorem resolve_eq_run (p : Program) :
    resolve p = (Resolving.initial.run p.command.walk).tables := by
  rw [resolve, Command.resolve_eq_run]

theorem lt_size_resolve {id symbol : Nat} (h : (resolve p).resolutions[id]? = some symbol ∨
    (resolve p).declarations[id]? = some symbol) : symbol < (resolve p).symbols.size := by
  have hrange := initial_inRange.run p.command.walk
  rw [resolve_eq_run] at h ⊢
  exact h.elim (hrange.resolutions id symbol) (hrange.declarations id symbol)

theorem mem_resolutions_resolve {id : Nat} :
    id ∈ (resolve p).resolutions ↔ ∃ leaf, (Node.command p.command).Applies leaf ∧ leaf.id = id := by
  have hempty : id ∉ Resolving.initial.tables.resolutions := Std.TreeMap.not_mem_emptyc
  rw [resolve_eq_run, Resolving.mem_resolutions_run, or_iff_right hempty]
  simp only [← Node.mem_leaves_walk]
  rfl

/-- No node but an applied occurrence has the number of an entry. -/
theorem applies_of_mem_resolutions (hids : p.command.ids.Nodup) {n : Node}
    (hn : (Node.command p.command).Contains n) (hid : n.id ∈ (resolve p).resolutions) :
    ∃ leaf, n.leaf? = some leaf ∧ (Node.command p.command).Applies leaf := by
  obtain ⟨leaf, hleaf, hleafid⟩ := mem_resolutions_resolve.1 hid
  obtain ⟨m, hm, hsome⟩ := hleaf.exists_part
  have hmid : m.id = n.id := by rw [Node.id, (Node.leaf?_eq_some hsome).1, hleafid]
  have hsame : m = n := Node.eq_of_id_eq (n := .command p.command) hids hm hn hmid
  exact ⟨leaf, hsame ▸ hsome, hleaf⟩

theorem mem_declared_command {c : Command} {x : Declared} : x ∈ c.declared ↔
    ∃ d, (Node.command c).Contains (.decl d) ∧ d.Introduces x := Node.mem_declared (n := .command c)

theorem mem_declarations_resolve {id : Nat} : id ∈ (resolve p).declarations ↔
    ∃ d x, (Node.command p.command).Contains (.decl d) ∧ d.Introduces x ∧ d.mark.id = id := by
  have hempty : id ∉ Resolving.initial.tables.declarations := Std.TreeMap.not_mem_emptyc
  rw [resolve_eq_run, Resolving.mem_declarations_run, or_iff_right hempty,
    Command.declarations_walk]
  constructor
  · rintro ⟨x, hx, rfl⟩
    obtain ⟨d, hd, hintroduces⟩ := mem_declared_command.1 hx
    exact ⟨d, x, hd, hintroduces, hintroduces.node_eq.symm⟩
  · rintro ⟨d, x, hd, hintroduces, rfl⟩
    exact ⟨x, mem_declared_command.2 ⟨d, hd, hintroduces⟩, hintroduces.node_eq⟩

theorem resolve_numbers (hids : p.command.ids.Nodup) {i : Nat} {x : Declared}
    (hx : p.command.declared[i]? = some x) : (resolve p).declarations[x.node]? = some (26 + i) ∧
      (resolve p).symbols.get? (26 + i) = some (x.symbol (26 + i)) := by
  have hnodes : (p.command.declared.map Declared.node).Nodup := by
    change (declaredNodes p.command.declared).Nodup
    rw [← Command.map_declarations]
    exact hids.sublist p.command.sublist_ids
  rw [← initial_size]
  constructor
  · rw [resolve_eq_run]
    exact Resolving.run_numbers _ _ (by rwa [Command.declarations_walk])
      (by rwa [Command.declarations_walk])
  · rw [resolve, Command.resolve_symbols]
    exact SymbolTable.get?_introduce_size hx

theorem resolve_size (p : Program) : (resolve p).symbols.size = 26 + p.command.declared.length := by
  rw [resolve, Command.resolve_symbols, SymbolTable.size_introduce, initial_size]

/-- The applied occurrences that are bound to the unknown symbol. -/
def missed (p : Program) : List Leaf :=
  (Resolving.leaves p.command.walk).filter ((resolve p).Misses ·)

theorem mem_missed {leaf : Leaf} : leaf ∈ missed p ↔
    (Node.command p.command).Applies leaf ∧ (resolve p).Misses leaf := by
  rw [missed, List.mem_filter, decide_eq_true_eq, ← Node.mem_leaves_walk]
  rfl

theorem undefined_resolve (hids : p.command.ids.Nodup) :
    (resolve p).errors.filter (·.isUndefined) = (missed p).map Leaf.undefined := by
  have hrun := Resolving.run_undefined p.command.walk initial_inRange
    (hids.sublist p.command.sublist_leaves)
  rw [← resolve_eq_run] at hrun
  exact hrun

/-- An undefined symbol that is reported at the place of a leaf is reported for that leaf. -/
theorem misses_iff_reported {text : List Char} (hids : p.command.ids.Nodup)
    (hplaced : (Node.command p.command).Throughout (Node.WellPlaced text)) {leaf : Leaf}
    (hleaf : (Node.command p.command).Applies leaf) :
    (resolve p).Misses leaf ↔ leaf.undefined ∈ (resolve p).errors := by
  have hreported : leaf.undefined ∈ (resolve p).errors ↔
      leaf.undefined ∈ (missed p).map Leaf.undefined := by
    rw [← undefined_resolve hids, List.mem_filter]
    exact (and_iff_left rfl).symm
  rw [hreported]
  constructor
  · exact fun hmiss => List.mem_map_of_mem (mem_missed.2 ⟨hleaf, hmiss⟩)
  · intro h
    obtain ⟨leaf', hleaf', hsame⟩ := List.mem_map.1 h
    obtain ⟨happlies, hmiss⟩ := mem_missed.1 hleaf'
    have hspan : leaf'.span = leaf.span := congrArg ResolveError.span hsame
    rwa [← happlies.eq_of_span_eq hleaf hplaced hspan]

end

/-! ## Whole programs -/

/-- The tables say about the tree of a command what there is to be said, and nothing else. -/
structure Resolution.Complete (r : Resolution) (c : Command) : Prop where
  /-- The entries of names and operators stand at the applied occurrences. -/
  applied : ∀ id, id ∈ r.resolutions ↔ ∃ leaf, (Node.command c).Applies leaf ∧ leaf.id = id
  /-- No other node has the number of such an entry. -/
  applied_only : ∀ n, (Node.command c).Contains n → n.id ∈ r.resolutions →
    ∃ leaf, n.leaf? = some leaf ∧ (Node.command c).Applies leaf
  name_not_applied : ∀ d x, (Node.command c).Contains (.decl d) → d.Introduces x →
    x.name.id ∉ r.resolutions
  /-- The entries of declarations stand at the constants and variables. -/
  declared : ∀ id, id ∈ r.declarations ↔
    ∃ d x, (Node.command c).Contains (.decl d) ∧ d.Introduces x ∧ d.mark.id = id
  valid : ∀ id symbol : Nat,
    r.resolutions[id]? = some symbol ∨ r.declarations[id]? = some symbol → symbol < r.symbols.size
  /-- What is declared comes in the order of the source. -/
  ordered : c.declared.Pairwise fun x y => x.name.span.stop ≤ y.name.span.start
  declared_iff : ∀ x, x ∈ c.declared ↔ ∃ d, (Node.command c).Contains (.decl d) ∧ d.Introduces x
  /-- In that order the declarations are numbered, behind the 26 symbols that are there before. -/
  numbered : ∀ i x, c.declared[i]? = some x → r.declarations[x.node]? = some (26 + i) ∧
    r.symbols.get? (26 + i) =
      some ⟨26 + i, x.name.name, x.kind, some x.name.span, some x.node⟩
  size : r.symbols.size = 26 + c.declared.length
  /-- The unknown symbol stands for the occurrences that are reported. -/
  unknown : ∀ leaf, (Node.command c).Applies leaf →
    (r.resolutions[leaf.id]? = some SymbolTable.unknown ↔
      ⟨.undefined leaf.spelling, leaf.span⟩ ∈ r.errors)
  /-- There is one report for each of them. -/
  reported : ∃ leaves : List Leaf, leaves.Nodup ∧
    (∀ leaf, leaf ∈ leaves ↔ (Node.command c).Applies leaf ∧
      r.resolutions[leaf.id]? = some SymbolTable.unknown) ∧
    r.errors.filter (·.isUndefined) =
      leaves.map fun leaf => ⟨.undefined leaf.spelling, leaf.span⟩

/-- Whatever errors a text has, the tables are complete for the tree that is read from it. -/
theorem resolve_complete (text : List Char) :
    (resolve (parseText text).program).Complete (parseText text).program.command := by
  generalize hp : (parseText text).program = p
  have hplaced : (Node.command p.command).Throughout (Node.WellPlaced text) := hp ▸ tree_wellPlaced text
  have hids : p.command.ids.Nodup := hp ▸ nodup_ids_tree (tokenize text).tokens
  constructor
  case applied => exact fun id => mem_resolutions_resolve
  case applied_only => exact fun n => applies_of_mem_resolutions hids
  case name_not_applied =>
    intro d x hd hx hid
    obtain ⟨leaf, hleaf, hleafid⟩ := mem_resolutions_resolve.1 hid
    exact hleaf.id_ne_name hids hd hx hleafid
  case declared => exact fun id => mem_declarations_resolve
  case valid => exact fun id symbol => lt_size_resolve
  case ordered => exact List.pairwise_map.1 hplaced.spread.apart
  case declared_iff => exact fun x => mem_declared_command
  case numbered => exact fun i x => resolve_numbers hids
  case size => exact resolve_size p
  case unknown => exact fun leaf => misses_iff_reported hids hplaced
  case reported =>
    have hnodup : ((Resolving.leaves p.command.walk).map (·.id)).Nodup :=
      hids.sublist p.command.sublist_leaves
    exact ⟨missed p, (List.Nodup.of_map _ hnodup).filter _, fun leaf => mem_missed,
      undefined_resolve hids⟩

end TriLang
