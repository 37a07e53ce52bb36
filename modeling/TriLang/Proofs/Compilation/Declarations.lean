import TriLang.Proofs.Parsing.Spans
import TriLang.Proofs.Typing.Acceptance

/-! # The declarations of a program

What a program declares stands in the source from the left to the right (`pairwise_declarations`), and each
name was read as a token of its own. The symbols that the program adds to those of the standard environment
belong to its declarations one by one, in the same order (`resolve_declared`). -/
namespace TriLang
open TriLang.Parser TriLang.Text
set_option autoImplicit false

/-! ## Declarations in the tree -/

/-- What is declared in a node, in the order of the source. -/
def Node.declared : Node → List Declared
  | command c => c.declared
  | decl d => d.declared
  | _ => []

/-- What a node declares itself. -/
def Node.declares : Node → List Declared
  | decl (.const m name _) => [⟨m.id, name, .const none⟩]
  | decl (.var m name _) => [⟨m.id, name, .var⟩]
  | _ => []

theorem Node.declared_eq (n : Node) : n.declared = n.declares ++ n.children.flatMap declared := by
  cases n with
  | command c => cases c <;> simp [declared, declares, children, Command.children, Command.declared]
  | decl d => cases d <;> simp [declared, declares, children, Decl.children, Decl.declared]
  | type d => rfl
  | param p => cases p <;> rfl
  | expr e => cases e <;> rfl
  | ident i => rfl
  | operator o => rfl

theorem Node.name_mem_of_declares {n : Node} {x : Declared} (h : x ∈ n.declares) :
    .ident x.name ∈ n.children ∧ n.declares = [x] ∧ n.children.flatMap declared = [] := by
  cases n with
  | decl d =>
    cases d with
    | const m name value =>
      obtain rfl := List.mem_singleton.1 h
      exact ⟨List.mem_cons_self, rfl, rfl⟩
    | var m name type =>
      obtain rfl := List.mem_singleton.1 h
      exact ⟨List.mem_cons_self, rfl, rfl⟩
    | seq m first second => simp [declares] at h
    | error m => simp [declares] at h
  | _ => simp [declares] at h

/-- What holds throughout a tree holds of the names that are declared in it. -/
theorem Node.Throughout.name {P : Node → Prop} {n : Node} (h : n.Throughout P) :
    ∀ x ∈ n.declared, P (.ident x.name) := by
  induction h with
  | @node n here below ih =>
    intro x hx
    rw [declared_eq, List.mem_append, List.mem_flatMap] at hx
    rcases hx with hx | ⟨c, hc, hx⟩
    · cases below _ (name_mem_of_declares hx).1 with
      | node here _ => exact here
    · exact ih c hc x hx

/-! ## Names in the source -/

theorem tokenize_nonempty {text : List Char} {t : Token} (ht : t ∈ (tokenize text).tokens)
    (hkind : t.kind ≠ .endOfText) : t.span.start < t.span.stop := by
  obtain ⟨words, stop, htokens, hstop, -, -, hwords⟩ := (tokenize_tiles text).exists_words
  rw [htokens, List.mem_append, List.mem_singleton] at ht
  rcases ht with ht | rfl
  · exact (hwords t ht).2
  · exact absurd hstop hkind

/-- A name in the tree was read as a token. -/
theorem Node.WellPlaced.token_ident {text : List Char} {name : Ident}
    (h : (Node.ident name).WellPlaced text) :
    ∃ t ∈ (tokenize text).tokens, t.kind = .identifier ∧ t.spelling = name.name ∧
      t.span = name.span := by
  obtain ⟨t, ht, hleaf, hspan⟩ := h.token (by simp [spelling?])
  cases hleaf with
  | ident m hkind => exact ⟨t, ht, hkind, rfl, hspan⟩

/-- The spans lie side by side between two offsets, and none is empty. -/
structure Spread (lower upper : Nat) (spans : List Span) : Prop where
  inside : ∀ s ∈ spans, lower ≤ s.start ∧ s.start < s.stop ∧ s.stop ≤ upper
  apart : spans.Pairwise fun s t => s.stop ≤ t.start

theorem Spread.nodup {lower upper : Nat} {spans : List Span} (h : Spread lower upper spans) :
    spans.Nodup := by
  refine (List.Pairwise.and_mem.1 h.apart).imp ?_
  rintro s t ⟨hs, -, hst⟩ rfl
  have hlt := (h.inside s hs).2.1
  omega

/-- Spans that lie in the children of a node lie in the node, in the order of the children. -/
theorem Node.WellPlaced.spread {text : List Char} {n : Node} (h : n.WellPlaced text)
    {spans : Node → List Span}
    (hchildren : ∀ c ∈ n.children, Spread c.span.start c.span.stop (spans c)) :
    Spread n.span.start n.span.stop (n.children.flatMap spans) := by
  constructor
  · intro s hs
    obtain ⟨c, hc, hs⟩ := List.mem_flatMap.1 hs
    obtain ⟨hstart, hlt, hstop⟩ := (hchildren c hc).inside s hs
    obtain ⟨hfirst, hlast⟩ := h.inside c hc
    have hle := hlast (by omega)
    omega
  · refine List.pairwise_flatMap.2 ⟨fun c hc => (hchildren c hc).apart, ?_⟩
    refine (List.Pairwise.and_mem.1 h.apart).imp ?_
    rintro c d ⟨hc, hd, hcd⟩ s hs t ht
    have hfirst := ((hchildren c hc).inside s hs).2.2
    have hsecond := ((hchildren d hd).inside t ht).1
    omega

/-- The names that are declared in a tree stand in the source in the order of the tree. -/
theorem Node.Throughout.spread {text : List Char} {n : Node} (h : n.Throughout (Node.WellPlaced text)) :
    Spread n.span.start n.span.stop (n.declared.map (·.name.span)) := by
  induction h with
  | @node n here below ih =>
    cases hown : n.declares with
    | nil =>
      rw [declared_eq, hown, List.nil_append, List.map_flatMap]
      exact here.spread ih
    | cons x more =>
      have hx : x ∈ n.declares := hown ▸ List.mem_cons_self
      obtain ⟨hchild, hone, hnone⟩ := name_mem_of_declares hx
      have hname : (Node.ident x.name).WellPlaced text := by
        cases below _ hchild
        assumption
      obtain ⟨t, ht, hkind, -, hspan⟩ := hname.token_ident
      have hlt := tokenize_nonempty ht (by simp [hkind])
      rw [hspan] at hlt
      obtain ⟨hfirst, hlast⟩ := here.inside _ hchild
      rw [declared_eq, hone, hnone, List.append_nil]
      exact ⟨List.forall_mem_singleton.2 ⟨hfirst, hlt, hlast hlt⟩, List.pairwise_singleton _ _⟩

/-! ## Symbols -/

/-- The symbol with the given number that says what is declared and where. -/
def Declared.symbol (d : Declared) (id : Nat) : Symbol :=
  ⟨id, d.name.name, d.kind, some d.name.span, some d.node⟩

theorem SymbolTable.declared_introduce_one (t : SymbolTable) (d : Declared) :
    (t.introduce [d]).declared = t.declared ++ [d.symbol t.size] := by
  simp [introduce, insert, declared, toList, Symbol.isBuiltin, Declared.symbol]

theorem SymbolTable.declared_introduce (t : SymbolTable) (ds : List Declared) :
    ∃ symbols, (t.introduce ds).declared = t.declared ++ symbols ∧
      List.Forall₂ (fun d s => s = d.symbol s.id) ds symbols := by
  induction ds generalizing t with
  | nil => exact ⟨[], (List.append_nil _).symm, .nil⟩
  | cons d more ih =>
    obtain ⟨symbols, hsymbols, hmade⟩ := ih (t.introduce [d])
    refine ⟨d.symbol t.size :: symbols, ?_, .cons rfl hmade⟩
    rw [declared_introduce_one, List.append_assoc] at hsymbols
    exact hsymbols

theorem resolve_declared (p : Program) :
    List.Forall₂ (fun d s => s = d.symbol s.id) p.command.declared
      (resolve p).symbols.declared := by
  have hinitial : Resolving.initial.tables.symbols.declared = [] := by decide +kernel
  obtain ⟨symbols, hsymbols, hmade⟩ :=
    Resolving.initial.tables.symbols.declared_introduce p.command.declared
  rw [resolve, Command.resolve_symbols, hsymbols, hinitial, List.nil_append]
  exact hmade

theorem map_decl?_of_forall₂ {ds : List Declared} {symbols : List Symbol}
    (h : List.Forall₂ (fun d s => s = d.symbol s.id) ds symbols) :
    symbols.map Symbol.decl? = (declaredNodes ds).map some := by
  induction h with
  | nil => rfl
  | cons hs _ ih =>
    rw [List.map_cons, ih, hs]
    rfl

/-- The table of declarations leads from a declaration to its symbol. -/
theorem resolve_leads {p : Program} (hids : p.command.ids.Nodup) {x : Declared} {s : Symbol}
    (hx : x ∈ p.command.declared) (hs : s ∈ (resolve p).symbols.declared) (hmade : s = x.symbol s.id) :
    (resolve p).declarations[x.node]? = some s.id ∧ (resolve p).symbols.get? s.id = some s := by
  have hentry : ∀ {s}, s ∈ (resolve p).symbols.declared → (resolve p).symbols.get? s.id = some s := by
    intro s hs
    obtain ⟨k, hk⟩ := SymbolTable.mem_toList.1 (List.mem_of_mem_filter hs)
    rw [(ordered_resolve p).numbered k s hk, hk]
  have hnodup : ((resolve p).symbols.declared.map Symbol.decl?).Nodup := by
    rw [map_decl?_of_forall₂ (resolve_declared p), ← Command.map_declarations]
    exact (hids.sublist p.command.sublist_ids).map fun _ _ => Option.some.inj
  obtain ⟨k, hk, hsymbol⟩ := p.command.resolve_registers hids Resolving.initial x hx
  have hmem : x.symbol k ∈ (resolve p).symbols.declared :=
    List.mem_filter.2 ⟨SymbolTable.mem_toList.2 ⟨k, hsymbol⟩, rfl⟩
  have hsame : s = x.symbol k :=
    List.inj_on_of_nodup_map hnodup hs hmem (by rw [hmade]; rfl)
  refine ⟨?_, hentry hs⟩
  rw [hsame]
  exact hk

/-! ## One after the other -/

/-- What a single declaration introduces. -/
inductive Decl.Introduces : Decl → Declared → Prop where
  | const (m : Mark) (name : Ident) (value : Expr) :
    Introduces (.const m name value) ⟨m.id, name, .const none⟩
  | var (m : Mark) (name : Ident) (type : TypeDenoter) :
    Introduces (.var m name type) ⟨m.id, name, .var⟩

theorem Decl.forall₂_singles (d : Decl) : List.Forall₂ Introduces d.singles d.declared := by
  induction d with
  | const m name value => exact .cons (.const m name value) .nil
  | var m name type => exact .cons (.var m name type) .nil
  | seq m first second ihf ihs => exact List.rel_append ihf ihs
  | error m => exact .nil

theorem Command.forall₂_declarations (c : Command) :
    List.Forall₂ Decl.Introduces c.declarations c.declared := by
  induction c with
  | cond m c thenBranch elseBranch iht ihe => exact List.rel_append iht ihe
  | whileDo m c body rest ihb ihr => exact List.rel_append ihb ihr
  | doWhile m body c ih => exact ih
  | letIn m decl body rest ihb ihr =>
    exact List.rel_append decl.forall₂_singles (List.rel_append ihb ihr)
  | seq m first second ihf ihs => exact List.rel_append ihf ihs
  | _ => exact .nil

theorem Decl.flatMap_declared {ds : List Decl} {xs : List Declared}
    (h : List.Forall₂ Introduces ds xs) : ds.flatMap declared = xs := by
  induction h with
  | nil => rfl
  | cons hd _ ih =>
    rw [List.flatMap_cons, ih]
    cases hd <;> rfl

/-- The names that the first declaration declares stand in front of those of the second one. -/
def Decl.Precedes (d e : Decl) : Prop :=
  ∀ x ∈ d.declared, ∀ y ∈ e.declared, x.name.span.stop ≤ y.name.span.start

theorem pairwise_declarations (text : List Char) :
    (parseText text).program.command.declarations.Pairwise Decl.Precedes := by
  have hapart := List.pairwise_map.1 (tree_wellPlaced text).spread.apart
  rw [Node.declared, ← Decl.flatMap_declared (Command.forall₂_declarations _)] at hapart
  exact (List.pairwise_flatMap.1 hapart).2

theorem exists_of_forall₂ {α β : Type} {R : α → β → Prop} {as : List α} {bs : List β}
    (h : List.Forall₂ R as bs) : ∀ b ∈ bs, ∃ a ∈ as, R a b := by
  induction h with
  | nil => simp
  | cons hab _ ih =>
    refine List.forall_mem_cons.2 ⟨⟨_, List.mem_cons_self, hab⟩, fun b hb => ?_⟩
    obtain ⟨a, ha, hr⟩ := ih b hb
    exact ⟨a, List.mem_cons_of_mem _ ha, hr⟩

theorem forall₂_comp {α β γ : Type} {R : α → β → Prop} {S : β → γ → Prop} {T : α → γ → Prop}
    {as : List α} {bs : List β} {cs : List γ} (h : List.Forall₂ R as bs) (h' : List.Forall₂ S bs cs)
    (hT : ∀ a ∈ as, ∀ b ∈ bs, ∀ c ∈ cs, R a b → S b c → T a c) : List.Forall₂ T as cs := by
  induction h generalizing cs with
  | nil =>
    cases h'
    exact .nil
  | cons hab _ ih =>
    cases h' with
    | cons hbc h' =>
      refine .cons (hT _ (by simp) _ (by simp) _ (by simp) hab hbc) (ih h' fun a ha b hb c hc => ?_)
      exact hT a (by simp [ha]) b (by simp [hb]) c (by simp [hc])

end TriLang
