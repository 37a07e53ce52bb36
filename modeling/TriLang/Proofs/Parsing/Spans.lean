import TriLang.Proofs.Lexing.Tiling
import TriLang.Proofs.Parsing.Building

/-! # Where the nodes lie in the text

A state is `InPlace` in a text if its tokens stand in the text side by side, behind what has been read.
Every step keeps that (`Step.inPlace`) and goes to the right. So the nodes that are built between two
states lie between them, side by side (`Builds.laid`): a node is put around what was built since its first
token, and where nothing was read, it is empty and lies in front of the next token. -/
namespace TriLang
open TriLang.Parser TriLang.Text
set_option autoImplicit false

/-! ## Tokens in a text -/

/-- The token stands in the text under its span, and unless it is an error its kind can be spelled so. -/
structure Token.Placed (text : List Char) (t : Token) : Prop where
  slice : Text.slice? t.span.start t.span.stop text = some t.spelling.toList
  spelled : t.kind = .error ∨ t.kind = .endOfText ∨ IsSpelling t.kind t.spelling

theorem Token.Placed.start_le_stop {text : List Char} {t : Token} (h : t.Placed text) :
    t.span.start ≤ t.span.stop := (exists_of_slice? h.slice).1

theorem Spells.quoted {c : Char} {tail : List Char} (h : Spells .charLiteral c tail) :
    ∃ d, c = '\'' ∧ tail = [d, '\''] := by
  generalize hk : Token.Kind.charLiteral = kind at h
  cases h with
  | word => rcases wordKind_cases (c :: tail) with hword | ⟨k, hword, -⟩ <;> simp [hword] at hk
  | character d => exact ⟨d, rfl, rfl⟩
  | _ => simp at hk

theorem spelled_of_split (lines : LineMap) (offset : Nat) (text : List Char) :
    ∀ t ∈ (Lexeme.split offset text).filterMap (Lexeme.token? lines),
      t.kind = .error ∨ t.kind = .endOfText ∨ IsSpelling t.kind t.spelling := by
  induction offset, text using Lexeme.split.induct with
  | case1 offset => rw [Lexeme.split]; simp
  | case2 offset c rest kind extent hc text ih =>
    rw [split_cons hc]
    cases kind with
    | separator => exact ih
    | token kind =>
      refine List.forall_mem_cons.2 ⟨.inr (.inr ?_), ih⟩
      exact ⟨c, _, String.toList_ofList, spells_of_classify hc⟩
    | bad cause => exact List.forall_mem_cons.2 ⟨.inl rfl, ih⟩

theorem tokenize_placed (text : List Char) : ∀ t ∈ (tokenize text).tokens, t.Placed text := by
  intro t ht
  refine ⟨(tokenize_tiles text).slice? [] rfl t ht, ?_⟩
  rcases List.mem_append.1 ht with ht | ht
  · exact spelled_of_split _ _ _ t ht
  · obtain rfl := List.mem_singleton.1 ht
    exact .inr (.inl rfl)

/-! ## States in a text -/

namespace Parser

/-- The tokens to be read stand in the text side by side, behind what has been read. -/
structure State.InPlace (text : List Char) (s : State) : Prop where
  wellFormed : s.WellFormed
  tokens : ∀ t ∈ s.rest ++ [s.stop], t ∈ (tokenize text).tokens
  apart : (s.rest ++ [s.stop]).Pairwise fun t u => t.span.stop ≤ u.span.start
  point : s.stop.span.stop = s.stop.span.start
  readTo_le : s.readTo ≤ s.start
  boundary : IsBoundary text s.readTo

/-- The second state lies in the text, and the first one no further to the right. -/
structure State.Onward (text : List Char) (s t : State) : Prop where
  inPlace : t.InPlace text
  start_le : s.start ≤ t.start
  readTo_le : s.readTo ≤ t.readTo

namespace State
variable {text : List Char} {s t u : State}

theorem Onward.trans (h : s.Onward text t) (h' : t.Onward text u) : s.Onward text u :=
  ⟨h'.inPlace, Nat.le_trans h.start_le h'.start_le, Nat.le_trans h.readTo_le h'.readTo_le⟩

theorem skipAll_advance (s : State) : s.advance.skipAll = s.skipAll := by
  unfold advance
  split
  · rfl
  · next t rest hrest =>
    cases hlast : rest.getLast? <;> simp [skipAll, hrest, List.getLast?_cons, hlast]

namespace InPlace

theorem refl (h : s.InPlace text) : s.Onward text s := ⟨h, Nat.le_refl _, Nat.le_refl _⟩

theorem current_mem (h : s.InPlace text) : s.current ∈ (tokenize text).tokens := by
  refine h.tokens _ ?_
  unfold current
  cases s.rest <;> simp

theorem current_placed (h : s.InPlace text) : s.current.Placed text :=
  tokenize_placed text _ h.current_mem

theorem start_boundary (h : s.InPlace text) : IsBoundary text s.start :=
  (exists_of_slice? h.current_placed.slice).2.1

/-- Only the tokens and the end of what was read matter. -/
theorem unchanged (h : s.InPlace text) (hrest : t.rest = s.rest) (hstop : t.stop = s.stop)
    (hreadTo : t.readTo = s.readTo) : s.Onward text t := by
  have hcurrent : t.current = s.current := by rw [current, current, hrest, hstop]
  have hstart : t.start = s.start := congrArg (fun u => u.span.start) hcurrent
  refine ⟨⟨?_, ?_, ?_, ?_, ?_, ?_⟩, Nat.le_of_eq hstart.symm, Nat.le_of_eq hreadTo.symm⟩
  · rw [WellFormed, hrest, hstop]
    exact h.wellFormed
  · rw [hrest, hstop]
    exact h.tokens
  · rw [hrest, hstop]
    exact h.apart
  · rw [hstop]
    exact h.point
  · rw [hreadTo, hstart]
    exact h.readTo_le
  · rw [hreadTo]
    exact h.boundary

theorem report (h : s.InPlace text) (cause : ParseError.Cause) : s.Onward text (s.report cause) := by
  refine h.unchanged (s.report_rest cause) (s.report_stop cause) ?_
  unfold State.report
  split <;> rfl

theorem advance (h : s.InPlace text) : s.Onward text s.advance := by
  cases hrest : s.rest with
  | nil => exact h.unchanged (by simp [State.advance, hrest]) s.advance_stop (by simp [State.advance, hrest])
  | cons t rest =>
    have hadvance : s.advance = { s with rest := rest, readTo := t.span.stop } := by
      simp [State.advance, hrest]
    have hcurrent : s.current = t := by simp [current, hrest]
    have ht : t.Placed text := hcurrent ▸ h.current_placed
    have hstart : s.start = t.span.start := congrArg (fun u => u.span.start) hcurrent
    have hreadTo := h.readTo_le
    have hle := ht.start_le_stop
    have hwf := h.wellFormed.advance
    have htokens := h.tokens
    have hapart := h.apart
    rw [hrest, List.cons_append] at htokens hapart
    obtain ⟨hfirst, hbehind⟩ := List.pairwise_cons.1 hapart
    have hnext : t.span.stop ≤ (rest.headD s.stop).span.start := by
      refine hfirst _ ?_
      cases rest <;> simp
    rw [hadvance] at hwf ⊢
    refine ⟨⟨hwf, (List.forall_mem_cons.1 htokens).2, hbehind, h.point, hnext,
      (exists_of_slice? ht.slice).2.2⟩, ?_, ?_⟩
    · rw [hstart]
      exact Nat.le_trans hle hnext
    · rw [hstart] at hreadTo
      exact Nat.le_trans hreadTo hle

theorem skipAll (h : s.InPlace text) : s.Onward text s.skipAll := by
  induction hn : s.rest.length generalizing s with
  | zero =>
    have hrest : s.rest = [] := List.length_eq_zero_iff.1 hn
    exact h.unchanged hrest.symm rfl (by simp [State.skipAll, hrest])
  | succ n ih =>
    have hlength : s.advance.rest.length = n := by
      rw [advance_rest, List.length_tail]
      omega
    rw [← s.skipAll_advance]
    exact h.advance.trans (ih h.advance.inPlace hlength)

theorem step (h : s.InPlace text) (hstep : Step s t) : s.Onward text t := by
  cases hstep with
  | advance => exact h.advance
  | report cause => exact h.report cause
  | number => exact h.unchanged rfl rfl rfl
  | abandon =>
    have hskip := (h.report .tooDeep).trans (h.report .tooDeep).inPlace.skipAll
    exact hskip.trans (hskip.inPlace.unchanged rfl rfl rfl)

theorem reads (h : s.InPlace text) (hreads : Reads s t) : s.Onward text t := by
  induction hreads with
  | refl => exact h.refl
  | tail _ hstep ih => exact ih.trans (ih.inPlace.step hstep)

/-- A token that is passed over ends where what was read ends then. -/
theorem readTo_advance (h : s.InPlace text) (hk : s.kind ≠ .endOfText) :
    s.advance.readTo = s.current.span.stop := by
  cases hrest : s.rest with
  | nil => exact absurd (h.wellFormed.rest_pos hk) (by simp [hrest])
  | cons t rest => simp [State.advance, current, hrest]

end InPlace

end State

end Parser

/-! ## Nodes in a text -/

/-- The span of the node is one of the text, holds what its children hold, and its children lie in it side
by side. What stands for one token has the span of that token, and its spelling stands there. -/
structure Node.WellPlaced (text : List Char) (n : Node) : Prop where
  ordered : n.span.start ≤ n.span.stop
  bounded : n.span.stop ≤ byteLength text
  boundaries : IsBoundary text n.span.start ∧ IsBoundary text n.span.stop
  inside : ∀ c ∈ n.children, n.span.start ≤ c.span.start ∧
    (c.span.start < c.span.stop → c.span.stop ≤ n.span.stop)
  apart : n.children.Pairwise fun c d => c.span.stop ≤ d.span.start
  spelled : ∀ spelling ∈ n.spelling?, slice? n.span.start n.span.stop text = some spelling.toList
  token : n.spelling? ≠ none → ∃ t ∈ (tokenize text).tokens, LeafOf t n ∧ t.span = n.span

/-- The nodes lie side by side between two states, and all that stands below them is in its place. -/
structure Laid (text : List Char) (s t : State) (nodes : List Node) : Prop where
  between : ∀ n ∈ nodes, s.start ≤ n.span.start ∧ n.span.stop ≤ t.start ∧
    (n.span.start < n.span.stop → n.span.stop ≤ t.readTo)
  apart : nodes.Pairwise fun n m => n.span.stop ≤ m.span.start
  placed : ∀ n ∈ nodes, n.Throughout (Node.WellPlaced text)

theorem Laid.append {text : List Char} {s t u : State} {front back : List Node}
    (h : Laid text s t front) (h' : Laid text t u back) (hfirst : s.Onward text t)
    (hsecond : t.Onward text u) : Laid text s u (front ++ back) := by
  have hst := hfirst.start_le
  have htu := hsecond.start_le
  have hread := hsecond.readTo_le
  refine ⟨List.forall_mem_append.2 ⟨fun n hn => ?_, fun n hn => ?_⟩,
    List.pairwise_append.2 ⟨h.apart, h'.apart, fun n hn m hm => ?_⟩,
    List.forall_mem_append.2 ⟨h.placed, h'.placed⟩⟩
  · obtain ⟨hstart, hstop, hreadTo⟩ := h.between n hn
    exact ⟨hstart, by omega, by omega⟩
  · obtain ⟨hstart, hrest⟩ := h'.between n hn
    exact ⟨by omega, hrest⟩
  · have hstop := (h.between n hn).2.1
    have hstart := (h'.between m hm).1
    omega

theorem Laid.single {text : List Char} {s t : State} {n : Node} (hstart : s.start ≤ n.span.start)
    (hstop : n.span.stop ≤ t.start) (hread : n.span.start < n.span.stop → n.span.stop ≤ t.readTo)
    (h : n.Throughout (Node.WellPlaced text)) : Laid text s t [n] :=
  ⟨List.forall_mem_singleton.2 ⟨hstart, hstop, hread⟩, List.pairwise_singleton _ _,
    List.forall_mem_singleton.2 h⟩

namespace Parser
variable {text : List Char}

theorem LeafOf.spelling {t : Token} {n : Node} (h : LeafOf t n) (ht : t.Placed text) :
    n.spelling? = some t.spelling := by
  cases h with
  | ident m hkind => rfl
  | operator m hkind => rfl
  | int m hkind => rfl
  | char m hkind =>
    have hspelling : IsSpelling .charLiteral t.spelling := by simpa [hkind] using ht.spelled
    obtain ⟨c, tail, hlist, hspells⟩ := hspelling
    obtain ⟨d, rfl, rfl⟩ := hspells.quoted
    have hchar : literalChar t.spelling = d := by simp [literalChar, hlist]
    rw [Node.spelling?, hchar, ← hlist, String.ofList_toList]

theorem LeafOf.wellPlaced {t : Token} {n : Node} (h : LeafOf t n) (ht : t ∈ (tokenize text).tokens)
    (hspan : n.span = t.span) : n.WellPlaced text := by
  have hplaced := tokenize_placed text t ht
  have hslice := hplaced.slice
  rw [← hspan] at hslice
  obtain ⟨hle, hstart, hstop⟩ := exists_of_slice? hslice
  refine ⟨hle, hstop.le, ⟨hstart, hstop⟩, by simp [h.children], by simp [h.children],
    fun spelling hspelling => ?_, fun _ => ⟨t, ht, h, hspan.symm⟩⟩
  obtain rfl : t.spelling = spelling := by simpa [h.spelling hplaced] using hspelling
  exact hslice

theorem Builds.laid {levels : Nat} {s t : State} {nodes : List Node} (h : Builds levels s t nodes)
    (hs : s.InPlace text) : Laid text s t nodes := by
  induction h with
  | reads => exact ⟨by simp, List.Pairwise.nil, by simp⟩
  | append h h' ih ih' =>
    have hfirst := hs.reads h.toReads
    exact (ih hs).append (ih' hfirst.inPlace) hfirst (hfirst.inPlace.reads h'.toReads)
  | @leaf levels s n hleaf hid hspan hlevel =>
    have hcurrent := hs.current_placed
    have hread := hs.readTo_advance hleaf.kind_ne
    have hnode : n.span = s.current.span := by
      rcases hspan with hspan | hspan
      · exact hspan
      · have hle : s.start ≤ s.current.span.stop := hcurrent.start_le_stop
        rw [hspan, State.spanFrom, hread, Nat.max_eq_left hle]
        rfl
    have hnext : s.advance.readTo ≤ s.advance.start := hs.advance.inPlace.readTo_le
    refine .single (Nat.le_of_eq ?_) ?_ (fun _ => ?_) (.node ?_ (by simp [hleaf.children]))
    · rw [hnode]
      rfl
    · rw [hnode, ← hread]
      exact hnext
    · rw [hnode, ← hread]
      exact Nat.le_refl _
    · exact hleaf.wellPlaced hs.current_mem hnode
  | @finish levels inner s t n h hspelling hmark hlevel ih =>
    have hbelow := ih hs
    have ht := hs.reads h.toReads
    have hspan : n.span = ⟨s.start, max t.readTo s.start⟩ := congrArg Mark.span hmark
    have hstart : n.span.start = s.start := by rw [hspan]
    have hstop : n.span.stop = max t.readTo s.start := by rw [hspan]
    have hread : t.readTo ≤ t.start := ht.inPlace.readTo_le
    have hle : s.start ≤ t.start := ht.start_le
    have hboundary : IsBoundary text n.span.stop := by
      rcases Nat.le_total t.readTo s.start with hmax | hmax
      · rw [hstop, Nat.max_eq_right hmax]
        exact hs.start_boundary
      · rw [hstop, Nat.max_eq_left hmax]
        exact ht.inPlace.boundary
    refine .single ?_ ?_ ?_ (.node ⟨?_, hboundary.le, ⟨?_, hboundary⟩, ?_, hbelow.apart, ?_, ?_⟩
      hbelow.placed)
    · omega
    · change n.span.stop ≤ t.start
      omega
    · change n.span.start < n.span.stop → n.span.stop ≤ t.readTo
      omega
    · omega
    · rw [hstart]
      exact hs.start_boundary
    · intro c hc
      obtain ⟨hfirst, -, hlast⟩ := hbelow.between c hc
      exact ⟨by omega, by omega⟩
    · simp [hspelling]
    · simp [hspelling]
  | @type levels s t ident h ih =>
    obtain ⟨hbetween, -, hplaced⟩ := ih hs
    obtain ⟨hstart, hstop, hread⟩ := List.forall_mem_singleton.1 hbetween
    have hident := List.forall_mem_singleton.1 hplaced
    obtain ⟨hordered, hbounded, hboundaries, -, -, -, -⟩ : (Node.ident ident).WellPlaced text := by
      cases hident
      assumption
    refine .single hstart hstop hread (.node ⟨hordered, hbounded, hboundaries, ?_, ?_, ?_, ?_⟩ hplaced)
    · exact List.forall_mem_singleton.2 ⟨Nat.le_refl _, fun _ => Nat.le_refl _⟩
    · exact List.pairwise_singleton _ _
    · simp [Node.spelling?]
    · simp [Node.spelling?]
  | @giveUp levels s n hchildren hspelling hmark hlevel =>
    have habandon := hs.step (.abandon s)
    have hspan : n.span = s.abandon.current.span := by rw [Node.span, hmark]
    have hpoint : n.span.stop = n.span.start := by
      rw [hspan]
      exact habandon.inPlace.point
    have hstart : n.span.start = s.abandon.start := by
      rw [hspan]
      rfl
    have hle : s.start ≤ s.abandon.start := habandon.start_le
    have hboundary : IsBoundary text n.span.start := hstart ▸ habandon.inPlace.start_boundary
    refine .single ?_ ?_ ?_ (.node ⟨?_, ?_, ⟨hboundary, ?_⟩, ?_, ?_, ?_, ?_⟩
      (by simp [hchildren]))
    · omega
    · change n.span.stop ≤ s.abandon.start
      omega
    · omega
    · omega
    · rw [hpoint]
      exact hboundary.le
    · rw [hpoint]
      exact hboundary
    · simp [hchildren]
    · simp [hchildren]
    · simp [hspelling]
    · simp [hspelling]

/-! ## Whole programs -/

theorem initial_inPlace (text : List Char) : (initial (tokenize text).tokens).InPlace text := by
  obtain ⟨words, stop, htokens, hkind, hspelling, hspan, hwords⟩ := (tokenize_tiles text).exists_words
  have htake : (initial (tokenize text).tokens).rest = words := by
    have hall : ∀ t ∈ words, decide (t.kind ≠ .endOfText) = true := fun t ht => by
      simpa using (hwords t ht).1
    rw [initial, htokens, List.takeWhile_append_of_pos hall]
    simp [hkind]
  have hstop : (initial (tokenize text).tokens).stop = stop := by
    have hnone : words.find? (·.kind = .endOfText) = none := by
      simpa using fun t ht => (hwords t ht).1
    simp [initial, stopToken, htokens, List.find?_append, hnone, hkind]
  have hboth : (initial (tokenize text).tokens).rest ++ [(initial (tokenize text).tokens).stop] =
      (tokenize text).tokens := by rw [htake, hstop, htokens]
  refine ⟨initial_wellFormed _, ?_, ?_, ?_, Nat.zero_le _, isBoundary_zero text⟩
  · rw [hboth]
    exact fun t ht => ht
  · rw [hboth]
    exact (tokenize_tiles text).pairwise
  · rw [hstop, hspan]
    rfl

end Parser

theorem tree_wellPlaced (text : List Char) :
    (Node.command (parseText text).program.command).Throughout (Node.WellPlaced text) :=
  ((parse_builds (tokenize text).tokens).laid (initial_inPlace text)).placed _
    (List.mem_singleton_self _)

/-- Whatever the text is, all nodes of the tree that is read from it are in their places: the span of a node
lies in the text, between boundaries of characters; it holds the spans of the nodes below it that are not
empty, and these lie side by side; and what was read from one token has its spelling under its span. The span
of the program is around all that, up to the end of the text. -/
theorem parseText_spans (text : List Char) :
    let program := (parseText text).program
    let tree := Node.command program.command
    tree.Throughout (Node.WellPlaced text) ∧
    program.span.start ≤ program.span.stop ∧ program.span.stop = byteLength text ∧
    IsBoundary text program.span.start ∧ program.span.start ≤ tree.span.start ∧
    tree.span.stop ≤ program.span.stop := by
  intro program tree
  have hinitial := initial_inPlace text
  have hlaid := (parse_builds (tokenize text).tokens).laid hinitial
  have htree := tree_wellPlaced text
  have hbetween := hlaid.between _ (List.mem_singleton_self tree)
  have hroot : tree.WellPlaced text := by
    cases htree
    assumption
  have hstop : program.span.stop = byteLength text := by
    change lastOffset (tokenize text).tokens = byteLength text
    simp [lastOffset, tokenize, endOfTextToken, Span.point]
  exact ⟨htree, hstop ▸ hinitial.start_boundary.le, hstop, hinitial.start_boundary, hbetween.1,
    hstop ▸ hroot.bounded⟩

end TriLang
