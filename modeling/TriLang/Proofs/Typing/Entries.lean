import TriLang.Proofs.Typing.Walks

/-! # The entries of a walk

What a walk of the checker does to the tables is proved along the walk. It writes entries for its expressions
and for the symbols of its declarations, and no others. If none of them is in the tables yet and none comes
twice (`Typing.Fresh`), then every entry is kept from one state to all later ones (`Typing.Walks.kept`), and
constants and variables have the types of their values and denoters (`Typing.Walks.typed`). -/
namespace TriLang
set_option autoImplicit false

variable {r : Resolution} {es es' : List Expr} {ds ds' : List Decl} {ss : List Typing}
  {t u v : Typing}

namespace Typing

/-! ## States that keep entries -/

/-- The later state has every entry of the earlier one. -/
structure Keeps (t u : Typing) : Prop where
  nodeTypes : ∀ (n : Nat) type, t.nodeTypes[n]? = some type → u.nodeTypes[n]? = some type
  symbolTypes : ∀ (k : Nat) type, t.symbolTypes[k]? = some type → u.symbolTypes[k]? = some type

theorem Keeps.refl (t : Typing) : Keeps t t := ⟨fun _ _ => id, fun _ _ => id⟩

theorem Keeps.trans (h : Keeps t u) (h' : Keeps u v) : Keeps t v :=
  ⟨fun n type hn => h'.nodeTypes n type (h.nodeTypes n type hn),
    fun k type hk => h'.symbolTypes k type (h.symbolTypes k type hk)⟩

theorem Reports.keeps (h : Reports t u) : Keeps t u :=
  ⟨fun n type hn => by rwa [h.nodeTypes], fun k type hk => by rwa [h.symbolTypes]⟩

theorem keeps_recordNode {node : Nat} (hnew : node ∉ t.nodeTypes) (type : Ty) :
    Keeps t (t.recordNode node type) := by
  refine ⟨fun n type' hn => ?_, fun _ _ => id⟩
  have hne : node ≠ n := by
    rintro rfl
    exact hnew (Std.TreeMap.mem_iff_isSome_getElem?.2 (by simp [hn]))
  simpa [recordNode, Std.TreeMap.getElem?_insert, hne] using hn

theorem nodeTypes_recordDeclared (t : Typing) (decl : Nat) (type : Ty) :
    (t.recordDeclared r decl type).nodeTypes = t.nodeTypes := by
  unfold recordDeclared
  split <;> rfl

theorem mem_symbolTypes_recordDeclared (t : Typing) (decl : Nat) (type : Ty) (k : Nat) :
    k ∈ (t.recordDeclared r decl type).symbolTypes ↔
      k ∈ t.symbolTypes ∨ r.declarations[decl]? = some k := by
  unfold recordDeclared
  split
  · next symbol hsymbol => simp [recordSymbol, Std.TreeMap.mem_insertIfNew, hsymbol, or_comm]
  · next hnone => simp [hnone]

/-- The type of a symbol is written once. -/
theorem keeps_recordDeclared (t : Typing) (decl : Nat) (type : Ty) :
    Keeps t (t.recordDeclared r decl type) := by
  refine ⟨fun n type' hn => by rwa [nodeTypes_recordDeclared], fun k type' hk => ?_⟩
  unfold recordDeclared
  split
  · rw [recordSymbol, Std.TreeMap.getElem?_insertIfNew, if_neg]
    · exact hk
    · rintro ⟨hsame, hnew⟩
      obtain rfl := Std.LawfulEqCmp.compare_eq_iff_eq.1 hsame
      exact hnew (Std.TreeMap.mem_iff_isSome_getElem?.2 (by simp [hk]))
  · exact hk

/-! ## The keys of the tables -/

theorem Walks.mem_nodeTypes (h : Walks r es ds t ss u) (n : Nat) :
    n ∈ u.nodeTypes ↔ n ∈ t.nodeTypes ∨ ∃ e ∈ es, e.mark.id = n := by
  induction h with
  | silent h => simp [h.nodeTypes]
  | append _ _ ih ih' =>
    rw [ih', ih, or_assoc]
    simp only [List.mem_append, or_and_right, exists_or]
  | expr e type t => simp [recordNode, Std.TreeMap.mem_insert, or_comm]
  | const m name h => simp [nodeTypes_recordDeclared]
  | var m name denoter t => simp [nodeTypes_recordDeclared]

theorem Walks.mem_symbolTypes (h : Walks r es ds t ss u) (k : Nat) :
    k ∈ u.symbolTypes ↔
      k ∈ t.symbolTypes ∨ ∃ d ∈ ds, r.declarations[d.mark.id]? = some k := by
  induction h with
  | silent h => simp [h.symbolTypes]
  | append _ _ ih ih' =>
    rw [ih', ih, or_assoc]
    simp only [List.mem_append, or_and_right, exists_or]
  | expr e type t => simp [recordNode]
  | const m name h => simp [mem_symbolTypes_recordDeclared, Decl.mark]
  | var m name denoter t => simp [mem_symbolTypes_recordDeclared, Decl.mark]

/-- One state is listed for each entry. -/
theorem Walks.length_states (h : Walks r es ds t ss u) : ss.length = es.length + ds.length := by
  induction h with
  | append _ _ ih ih' =>
    simp only [List.length_append]
    omega
  | _ => rfl

/-! ## Entries that are new -/

/-- The expressions and the symbols of the declarations are not in the tables, and none comes twice. -/
structure Fresh (r : Resolution) (es : List Expr) (ds : List Decl) (t : Typing) : Prop where
  nodes : ∀ e ∈ es, e.mark.id ∉ t.nodeTypes
  symbols : ∀ d ∈ ds, ∀ k, r.declarations[d.mark.id]? = some k → k ∉ t.symbolTypes
  nodes_apart : es.Pairwise fun e e' => e.mark.id ≠ e'.mark.id
  symbols_apart : ds.Pairwise fun d d' =>
    ∀ k, r.declarations[d.mark.id]? = some k → r.declarations[d'.mark.id]? ≠ some k

theorem Fresh.front (h : Fresh r (es ++ es') (ds ++ ds') t) : Fresh r es ds t :=
  ⟨fun e he => h.nodes e (List.mem_append_left _ he),
    fun d hd => h.symbols d (List.mem_append_left _ hd),
    (List.pairwise_append.1 h.nodes_apart).1, (List.pairwise_append.1 h.symbols_apart).1⟩

theorem Fresh.back (h : Fresh r (es ++ es') (ds ++ ds') t) (hw : Walks r es ds t ss u) :
    Fresh r es' ds' u := by
  obtain ⟨-, hnodes, hnodes'⟩ := List.pairwise_append.1 h.nodes_apart
  obtain ⟨-, hsymbols, hsymbols'⟩ := List.pairwise_append.1 h.symbols_apart
  refine ⟨fun e he hmem => ?_, fun d hd k hk hmem => ?_, hnodes, hsymbols⟩
  · rcases (hw.mem_nodeTypes _).1 hmem with hold | ⟨e', he', hid⟩
    · exact h.nodes e (List.mem_append_right _ he) hold
    · exact hnodes' e' he' e he hid
  · rcases (hw.mem_symbolTypes _).1 hmem with hold | ⟨d', hd', hk'⟩
    · exact h.symbols d (List.mem_append_right _ hd) k hk hold
    · exact hsymbols' d' hd' d hd k hk' hk

/-! ## What is kept -/

/-- Two chains of states that meet in one. -/
theorem pairwise_keeps_join {front back : List Typing} (hfront : (front ++ [u]).Pairwise Keeps)
    (hback : (u :: back).Pairwise Keeps) : (front ++ back).Pairwise Keeps := by
  obtain ⟨hbefore, -, hmeet⟩ := List.pairwise_append.1 hfront
  obtain ⟨hmeet', hbehind⟩ := List.pairwise_cons.1 hback
  exact List.pairwise_append.2 ⟨hbefore, hbehind, fun s hs s' hs' =>
    (hmeet s hs u (List.mem_singleton_self u)).trans (hmeet' s' hs')⟩

/-- From the start to the end of a walk, no state loses an entry of the states before it. -/
theorem Walks.kept (h : Walks r es ds t ss u) (hf : Fresh r es ds t) :
    (t :: (ss ++ [u])).Pairwise Keeps := by
  have hone : ∀ {t u : Typing}, Keeps t u → (t :: ([u] ++ [u])).Pairwise Keeps := by
    intro t u h
    simp [h, Keeps.refl]
  induction h with
  | silent h => simp [h.keeps]
  | append h _ ih ih' =>
    rw [List.append_assoc, ← List.cons_append]
    exact pairwise_keeps_join (ih hf.front) (ih' (hf.back h))
  | expr e type t => exact hone (keeps_recordNode (hf.nodes e (List.mem_singleton_self e)) type)
  | const m name h => exact hone (keeps_recordDeclared _ _ _)
  | var m name denoter t => exact hone (keeps_recordDeclared _ _ _)

theorem Walks.keeps (h : Walks r es ds t ss u) (hf : Fresh r es ds t) : Keeps t u :=
  (List.pairwise_cons.1 (h.kept hf)).1 u (List.mem_append_right _ (List.mem_singleton_self u))

end Typing

/-! ## Constants and variables -/

/-- The symbol of the declaration has the type of the value, or the type that the denoter names. -/
def Decl.Typed (r : Resolution) (t : Typing) : Decl → Prop
  | const m _ value => ∀ k, r.declarations[m.id]? = some k →
    ∃ type, t.symbolTypes[k]? = some type ∧ t.nodeTypes[value.mark.id]? = some type
  | var m _ denoter => ∀ k, r.declarations[m.id]? = some k →
    t.symbolTypes[k]? = some (r.typeOf denoter)
  | seq _ _ _ => True
  | error _ => True

theorem Decl.Typed.keeps {d : Decl} (h : d.Typed r t) (hkeeps : Typing.Keeps t u) : d.Typed r u := by
  cases d with
  | const m name value =>
    intro k hk
    obtain ⟨type, hsymbol, hnode⟩ := h k hk
    exact ⟨type, hkeeps.symbolTypes k type hsymbol, hkeeps.nodeTypes _ type hnode⟩
  | var m name denoter => exact fun k hk => hkeeps.symbolTypes k _ (h k hk)
  | seq m first second => trivial
  | error m => trivial

theorem Typing.getElem?_recordDeclared {decl k : Nat} (hk : r.declarations[decl]? = some k)
    (hnew : k ∉ t.symbolTypes) (type : Ty) :
    (t.recordDeclared r decl type).symbolTypes[k]? = some type := by
  rw [symbolTypes_recordDeclared t hk (by simpa using hnew), if_pos rfl]

theorem Typing.Walks.typed (h : Walks r es ds t ss u) (hf : Fresh r es ds t) :
    ∀ d ∈ ds, d.Typed r u := by
  induction h with
  | silent h => simp
  | append h h' ih ih' =>
    refine List.forall_mem_append.2 ⟨fun d hd => ?_, ih' (hf.back h)⟩
    exact (ih hf.front d hd).keeps (h'.keeps (hf.back h))
  | expr e type t => simp
  | @const m name value type t hvalue =>
    refine List.forall_mem_singleton.2 fun k hk => ?_
    have hnew := hf.symbols _ (List.mem_singleton_self _) k hk
    exact ⟨type, getElem?_recordDeclared hk hnew type, by rwa [nodeTypes_recordDeclared]⟩
  | var m name denoter t =>
    refine List.forall_mem_singleton.2 fun k hk => ?_
    exact getElem?_recordDeclared hk (hf.symbols _ (List.mem_singleton_self _) k hk) _

end TriLang
