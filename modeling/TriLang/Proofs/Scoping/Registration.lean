import TriLang.Proofs.Scoping.Growth

/-! # Every declaration has its symbol

Whether or not its name can be bound, a declaration gets a symbol of its own, which says what was declared
and at which node, and the table of declarations leads from the node to that symbol. Nothing else adds a
symbol to those of the standard environment (`resolve_symbols`). -/
namespace TriLang
set_option autoImplicit false

/-- What a command declares, in the order of the source. -/
def Command.declared : Command → List Declared
  | assign _ _ _ => []
  | call _ _ _ => []
  | cond _ _ thenBranch elseBranch => thenBranch.declared ++ elseBranch.declared
  | whileDo _ _ body rest => body.declared ++ rest.declared
  | doWhile _ body _ => body.declared
  | letIn _ decl body rest => decl.declared ++ (body.declared ++ rest.declared)
  | seq _ first second => first.declared ++ second.declared
  | blank _ => []
  | error _ => []

theorem Command.node_mem_of_declared {c : Command} {x : Declared} (h : x ∈ c.declared) :
    x.node ∈ c.ids := by
  induction c with
  | cond m c thenBranch elseBranch iht ihe =>
    rcases List.mem_append.1 h with h | h
    · simp [iht h]
    · simp [ihe h]
  | whileDo m c body rest ihb ihr =>
    rcases List.mem_append.1 h with h | h
    · simp [ihb h]
    · simp [ihr h]
  | doWhile m body c ih => simp [ih h]
  | letIn m decl body rest ihb ihr =>
    rcases List.mem_append.1 h with h | h
    · simp [Decl.node_mem_of_declared h]
    · rcases List.mem_append.1 h with h | h
      · simp [ihb h]
      · simp [ihr h]
  | seq m first second ihf ihs =>
    rcases List.mem_append.1 h with h | h
    · simp [ihf h]
    · simp [ihs h]
  | _ => simp [declared] at h

theorem Command.kind_of_declared {c : Command} {x : Declared} (h : x ∈ c.declared) :
    x.kind = .const none ∨ x.kind = .var := by
  induction c with
  | cond m c thenBranch elseBranch iht ihe => exact (List.mem_append.1 h).elim iht ihe
  | whileDo m c body rest ihb ihr => exact (List.mem_append.1 h).elim ihb ihr
  | doWhile m body c ih => exact ih h
  | letIn m decl body rest ihb ihr =>
    rcases List.mem_append.1 h with h | h
    · exact Decl.kind_of_declared h
    · exact (List.mem_append.1 h).elim ihb ihr
  | seq m first second ihf ihs => exact (List.mem_append.1 h).elim ihf ihs
  | _ => simp [declared] at h

/-- The declaration has a symbol, which says what is declared and where. -/
def Declared.Registered (d : Declared) (tables : Resolution) : Prop :=
  ∃ symbol, tables.declarations[d.node]? = some symbol ∧
    tables.symbols.get? symbol = some ⟨symbol, d.name.name, d.kind, some d.name.span, some d.node⟩

theorem Declared.Registered.grows {d : Declared} {nodes : List Nat} {t u : Resolution}
    (h : d.Registered t) (hg : Grows nodes t u) (hd : d.node ∉ nodes) : d.Registered u := by
  obtain ⟨symbol, hsymbol, hentry⟩ := h
  exact ⟨symbol, by rw [hg.declarations _ hd, hsymbol], hg.symbols _ _ hentry⟩

theorem Resolving.declare_registers (s : Resolving) (d : Declared) :
    d.Registered (s.declare d.node d.name d.kind).tables := by
  have hintroduce : d.Registered (s.introduce d.node d.name d.kind).tables :=
    ⟨s.tables.symbols.size, by simp [introduce], SymbolTable.get?_insert_size _ _ _ _ _⟩
  unfold declare
  dsimp only
  split
  · exact hintroduce
  · exact hintroduce

theorem Decl.resolve_registers (d : Decl) (h : d.ids.Nodup) (s : Resolving) :
    ∀ x ∈ d.declared, x.Registered (d.resolve s).tables := by
  induction d generalizing s with
  | const m name value =>
    intro x hx
    obtain rfl := List.mem_singleton.1 hx
    rw [ids_const, List.nodup_cons, List.nodup_append] at h
    have hdeclare := s.declare_registers ⟨m.id, name, .const none⟩
    exact hdeclare.grows (value.resolve_grows _) fun hm => h.2.2.2 _ hm _ (by simp) rfl
  | var m name type =>
    intro x hx
    obtain rfl := List.mem_singleton.1 hx
    exact Resolving.declare_registers _ ⟨m.id, name, .var⟩
  | seq m first second ihf ihs =>
    rw [ids_seq, List.nodup_append, List.nodup_append] at h
    intro x hx
    rcases List.mem_append.1 hx with hx | hx
    · refine (ihf h.1 s x hx).grows (second.resolve_grows _) fun hn => ?_
      exact h.2.2 _ (node_mem_of_declared hx) _ (List.mem_append_left _ hn) rfl
    · exact ihs h.2.1.1 _ x hx
  | error m => simp [declared]

/-- One part of a tree after another, whose nodes are others. -/
theorem Grows.registers_append {nodes nodes' : List Nat} {t u : Resolution} {front back : List Declared}
    (hg : Grows nodes' t u) (hfront : ∀ x ∈ front, x.Registered t)
    (hnodes : ∀ x ∈ front, x.node ∈ nodes) (hapart : ∀ a ∈ nodes, a ∉ nodes')
    (hback : ∀ x ∈ back, x.Registered u) : ∀ x ∈ front ++ back, x.Registered u := by
  intro x hx
  rcases List.mem_append.1 hx with hx | hx
  · exact (hfront x hx).grows hg (hapart _ (hnodes x hx))
  · exact hback x hx

theorem Command.resolve_registers (c : Command) (h : c.ids.Nodup) (s : Resolving) :
    ∀ x ∈ c.declared, x.Registered (c.resolve s).tables := by
  induction c generalizing s with
  | cond m c thenBranch elseBranch iht ihe =>
    rw [ids_cond, List.nodup_append, List.nodup_append, List.nodup_append] at h
    obtain ⟨-, ⟨hthen, ⟨helse, -⟩, hapart⟩, -⟩ := h
    exact (elseBranch.resolve_grows _).registers_append (iht hthen _)
      (fun _ => node_mem_of_declared) (by grind) (ihe helse _)
  | whileDo m c body rest ihb ihr =>
    rw [ids_whileDo, List.nodup_append, List.nodup_append, List.nodup_append] at h
    obtain ⟨-, ⟨hbody, ⟨hrest, -⟩, hapart⟩, -⟩ := h
    exact (rest.resolve_grows _).registers_append (ihb hbody _)
      (fun _ => node_mem_of_declared) (by grind) (ihr hrest _)
  | doWhile m body c ih =>
    rw [ids_doWhile, List.nodup_append, List.nodup_append] at h
    intro x hx
    refine (ih h.1 s x hx).grows (c.resolve_grows _) fun hn => ?_
    exact h.2.2 _ (node_mem_of_declared hx) _ (List.mem_append_left _ hn) rfl
  | letIn m decl body rest ihb ihr =>
    rw [ids_letIn, List.nodup_append, List.nodup_append, List.nodup_append] at h
    obtain ⟨hdecl, ⟨hbody, ⟨hrest, -⟩, hapart⟩, hapart'⟩ := h
    have hgrows := (body.resolve_grows (decl.resolve s.openScope)).append
      (rest.resolve_grows (body.resolve (decl.resolve s.openScope)).closeScope)
    refine hgrows.registers_append (decl.resolve_registers hdecl _)
      (fun _ => Decl.node_mem_of_declared) (by grind) ?_
    exact (rest.resolve_grows (body.resolve (decl.resolve s.openScope)).closeScope).registers_append
      (ihb hbody (decl.resolve s.openScope)) (fun _ => node_mem_of_declared) (by grind) (ihr hrest _)
  | seq m first second ihf ihs =>
    rw [ids_seq, List.nodup_append, List.nodup_append] at h
    obtain ⟨hfirst, ⟨hsecond, -⟩, hapart⟩ := h
    exact (second.resolve_grows _).registers_append (ihf hfirst _)
      (fun _ => node_mem_of_declared) (by grind) (ihs hsecond _)
  | _ => simp [declared]

/-! ## The symbols of a program -/

namespace SymbolTable

/-- The table with a symbol for each declaration. -/
def introduce (t : SymbolTable) (declared : List Declared) : SymbolTable :=
  declared.foldl (fun t d => t.insert d.name.name d.kind (some d.name.span) (some d.node)) t

theorem introduce_append (t : SymbolTable) (front back : List Declared) :
    t.introduce (front ++ back) = (t.introduce front).introduce back := List.foldl_append

theorem get?_insert (t : SymbolTable) (name : String) (kind : Symbol.Kind) (span? : Option Span)
    (decl? : Option Nat) (k : Nat) :
    (t.insert name kind span? decl?).get? k =
      if k = t.size then some ⟨t.size, name, kind, span?, decl?⟩ else t.get? k :=
  Array.getElem?_push

theorem size_introduce (t : SymbolTable) (declared : List Declared) :
    (t.introduce declared).size = t.size + declared.length := by
  induction declared generalizing t with
  | nil => rfl
  | cons d more ih =>
    have hone : (t.introduce [d]).size = t.size + 1 := Array.size_push _
    calc ((t.introduce [d]).introduce more).size
        = (t.introduce [d]).size + more.length := ih _
      _ = t.size + (d :: more).length := by rw [hone, List.length_cons, Nat.add_assoc, Nat.add_comm 1]

/-- A symbol is an old one, or belongs to a declaration and stands at its own number. -/
theorem get?_introduce {t : SymbolTable} {declared : List Declared} {k : Nat} {symbol : Symbol}
    (h : (t.introduce declared).get? k = some symbol) :
    t.get? k = some symbol ∨
      ∃ d ∈ declared, symbol = ⟨k, d.name.name, d.kind, some d.name.span, some d.node⟩ := by
  induction declared generalizing t with
  | nil => exact .inl h
  | cons d more ih =>
    rcases ih h with hfirst | ⟨d', hd', hsymbol⟩
    · rw [get?_insert] at hfirst
      split at hfirst
      · next hk => exact .inr ⟨d, by simp, by rw [hk]; exact (Option.some.inj hfirst).symm⟩
      · exact .inl hfirst
    · exact .inr ⟨d', List.mem_cons_of_mem _ hd', hsymbol⟩

end SymbolTable

theorem Resolving.apply_symbols (s : Resolving) (mark : Mark) (name : String) :
    (s.apply mark name).tables.symbols = s.tables.symbols := by
  unfold apply
  split <;> rfl

theorem Resolving.declare_symbols (s : Resolving) (d : Declared) :
    (s.declare d.node d.name d.kind).tables.symbols = s.tables.symbols.introduce [d] := by
  unfold declare
  dsimp only
  split <;> rfl

theorem Expr.resolve_symbols (e : Expr) (s : Resolving) :
    (e.resolve s).tables.symbols = s.tables.symbols := by
  induction e generalizing s with
  | binary m op lhs rhs ihl ihr => exact (ihr _).trans ((Resolving.apply_symbols _ _ _).trans (ihl s))
  | unary m op operand ih => exact (ih _).trans (s.apply_symbols _ _)
  | name m ident => exact s.apply_symbols _ _
  | _ => rfl

theorem Param.resolve_symbols (p : Param) (s : Resolving) :
    (p.resolve s).tables.symbols = s.tables.symbols := by
  cases p with
  | value m expr => exact expr.resolve_symbols s
  | reference m ident => exact s.apply_symbols _ _
  | _ => rfl

theorem Decl.resolve_symbols (d : Decl) (s : Resolving) :
    (d.resolve s).tables.symbols = s.tables.symbols.introduce d.declared := by
  induction d generalizing s with
  | const m name value =>
    exact (value.resolve_symbols _).trans (s.declare_symbols ⟨m.id, name, .const none⟩)
  | var m name type =>
    rw [resolve, Resolving.declare_symbols _ ⟨m.id, name, .var⟩, Resolving.applyIdent,
      Resolving.apply_symbols]
    rfl
  | seq m first second ihf ihs => rw [resolve, ihs, ihf, declared, SymbolTable.introduce_append]
  | error m => rfl

theorem Command.resolve_symbols (c : Command) (s : Resolving) :
    (c.resolve s).tables.symbols = s.tables.symbols.introduce c.declared := by
  induction c generalizing s with
  | assign m target value => exact (value.resolve_symbols _).trans (s.apply_symbols _ _)
  | call m callee param => exact (param.resolve_symbols _).trans (s.apply_symbols _ _)
  | cond m c thenBranch elseBranch iht ihe =>
    rw [resolve, ihe, iht, Expr.resolve_symbols, declared, SymbolTable.introduce_append]
  | whileDo m c body rest ihb ihr =>
    rw [resolve_whileDo, ihr, ihb, Expr.resolve_symbols, declared, SymbolTable.introduce_append]
  | doWhile m body c ih => rw [resolve, Expr.resolve_symbols, ih, declared]
  | letIn m decl body rest ihb ihr =>
    rw [resolve, ihr, declared, SymbolTable.introduce_append, SymbolTable.introduce_append]
    change (((body.resolve (decl.resolve s.openScope)).tables.symbols).introduce rest.declared) = _
    rw [ihb, decl.resolve_symbols]
    rfl
  | seq m first second ihf ihs => rw [resolve, ihs, ihf, declared, SymbolTable.introduce_append]
  | blank m => rfl
  | error m => rfl

end TriLang
