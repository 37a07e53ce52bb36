import TriLang.Diagnostic.Code
import TriLang.Proofs.Compilation.Halting
import TriLang.Proofs.Parsing.Errors
import TriLang.Proofs.Scoping.Duplicates
import TriLang.Proofs.Typing.Places

/-! # Where diagnostics point

What a phase finds wrong in a text is reported under a code of its category, with one primary label
(`Diagnostic.Points`, `TypeError.points`, …). Lexical errors are at tokens, syntax errors at tokens or at the
end, the others at parts of the tree (`mem_errors_resolve`, `typecheck_places`), and all of these have their
spans in the text. So every label can be shown there (`Phase.exists_points`, `found_locatable`). -/
namespace TriLang
open TriLang.Parser TriLang.Text
set_option autoImplicit false

/-! ## Spans in a text -/

/-- The span is one of the text: its ends are in order, and characters of the text begin or end there. -/
structure Span.InText (text : List Char) (span : Span) : Prop where
  ordered : span.start ≤ span.stop
  start : IsBoundary text span.start
  stop : IsBoundary text span.stop

section
variable {text : List Char}

theorem Token.Placed.inText {t : Token} (h : t.Placed text) : t.span.InText text :=
  have hcut := exists_of_slice? h.slice
  ⟨hcut.1, hcut.2.1, hcut.2.2⟩

theorem Node.WellPlaced.inText {n : Node} (h : n.WellPlaced text) : n.span.InText text :=
  ⟨h.ordered, h.boundaries.1, h.boundaries.2⟩

theorem Span.InText.join {a b : Span} (ha : a.InText text) (hb : b.InText text) :
    (a.join b).InText text := by
  have hordered := ha.ordered
  have hordered' := hb.ordered
  refine ⟨?_, ?_, ?_⟩
  · change min a.start b.start ≤ max a.stop b.stop
    omega
  · change IsBoundary text (min a.start b.start)
    rcases Nat.le_total a.start b.start with hle | hle
    · exact (Nat.min_eq_left hle).symm ▸ ha.start
    · exact (Nat.min_eq_right hle).symm ▸ hb.start
  · change IsBoundary text (max a.stop b.stop)
    rcases Nat.le_total a.stop b.stop with hle | hle
    · exact (Nat.max_eq_right hle).symm ▸ hb.stop
    · exact (Nat.max_eq_left hle).symm ▸ ha.stop

end

/-! ## Errors as diagnostics -/

/-- The family of errors that a phase finds. -/
def Phase.category : Phase → ErrorCategory
  | lexing => .lexical
  | parsing => .syntactic
  | identification => .identification
  | typing => .typing

/-- The text can stand in a row under a line of the source, and nothing in it looks like an underline. -/
def IsCaption (s : String) : Prop := ∀ c ∈ s.toList, c ≠ '\n' ∧ c ≠ '^'

theorem IsCaption.append {s t : String} (hs : IsCaption s) (ht : IsCaption t) : IsCaption (s ++ t) := by
  rw [IsCaption, String.toList_append]
  exact List.forall_mem_append.2 ⟨hs, ht⟩

theorem isCaption_iff (s : String) :
    s.toList.all (fun c => c ≠ '\n' ∧ c ≠ '^') = true ↔ IsCaption s := by
  simp [IsCaption]

instance (s : String) : Decidable (IsCaption s) := decidable_of_iff _ (isCaption_iff s)

/-- The diagnostic is an error under a code of the category. It is about one place, and at most one other
place has to do with it. -/
structure Diagnostic.Points (category : ErrorCategory) (span : Span) (previous? : Option Span)
    (d : Diagnostic) : Prop where
  severity : d.severity = .error
  code : ∃ code entry, d.code? = some code ∧ ErrorCode.find? code = some entry ∧
    entry.category = category
  labels : ∃ message, IsCaption message ∧ d.labels = ⟨span, .primary, some message⟩ ::
    previous?.toList.map (⟨·, .secondary, some "previously declared here"⟩)

theorem Diagnostic.Points.withHelp? {category : ErrorCategory} {span : Span} {previous? : Option Span}
    {d : Diagnostic} (h : d.Points category span previous?) (help? : Option String) :
    (d.withHelp? help?).Points category span previous? := by
  cases help? <;> exact ⟨h.severity, h.code, h.labels⟩

theorem LexError.points (e : LexError) : e.toDiagnostic.Points .lexical e.span none := by
  unfold toDiagnostic
  split
  · refine Diagnostic.Points.withHelp? ?_ _
    exact ⟨rfl, ⟨_, _, rfl, rfl, rfl⟩, ⟨_, by decide, rfl⟩⟩
  · refine Diagnostic.Points.withHelp? ?_ _
    exact ⟨rfl, ⟨_, _, rfl, rfl, rfl⟩, ⟨_, by decide, rfl⟩⟩

theorem ParseError.points (e : ParseError) : e.toDiagnostic.Points .syntactic e.span none := by
  have hcode : ∃ entry, ErrorCode.find? e.cause.kind.code = some entry ∧ entry.category = .syntactic := by
    cases e.cause.kind <;> exact ⟨_, rfl, rfl⟩
  obtain ⟨entry, hfind, hcategory⟩ := hcode
  refine Diagnostic.Points.withHelp? ?_ _
  exact ⟨rfl, ⟨_, entry, rfl, hfind, hcategory⟩, ⟨_, by decide, rfl⟩⟩

/-- Where the name was declared first, if it is declared again. -/
def ResolveError.previous? (e : ResolveError) : Option Span :=
  match e.cause with
  | .undefined _ => none
  | .duplicate _ previous => some previous

theorem ResolveError.points (e : ResolveError) :
    e.toDiagnostic.Points .identification e.span e.previous? := by
  obtain ⟨cause, span⟩ := e
  cases cause with
  | undefined name => exact ⟨rfl, ⟨_, _, rfl, rfl, rfl⟩, ⟨_, by decide, rfl⟩⟩
  | duplicate name previous => exact ⟨rfl, ⟨_, _, rfl, rfl, rfl⟩, ⟨_, by decide, rfl⟩⟩

theorem isCaption_name (t : Ty) : IsCaption t.name := by
  cases t <;> decide

theorem isCaption_describe (k : Symbol.Kind) : IsCaption k.describe := by
  unfold Symbol.Kind.describe
  split <;> decide

theorem isCaption_arityWord (arity : Nat) : IsCaption (TypeError.Cause.arityWord arity) := by
  unfold TypeError.Cause.arityWord
  split <;> decide

theorem TypeError.points (e : TypeError) : e.toDiagnostic.Points .typing e.span none := by
  obtain ⟨cause, span⟩ := e
  cases cause with
  | mismatch expected found =>
    have hcaption := ((((by decide : IsCaption "expected `").append (isCaption_name expected)).append
      (by decide : IsCaption "`, found `")).append (isCaption_name found)).append
        (by decide : IsCaption "`")
    exact ⟨rfl, ⟨_, _, rfl, rfl, rfl⟩, ⟨_, hcaption, rfl⟩⟩
  | operandMismatch op lhs rhs =>
    have hcaption := ((((by decide : IsCaption "`").append (isCaption_name lhs)).append
      (by decide : IsCaption "` compared with `")).append (isCaption_name rhs)).append
        (by decide : IsCaption "`")
    exact ⟨rfl, ⟨_, _, rfl, rfl, rfl⟩, ⟨_, hcaption, rfl⟩⟩
  | notAValue name kind =>
    have hcaption := (by decide : IsCaption "this is a ").append (isCaption_describe kind)
    exact ⟨rfl, ⟨_, _, rfl, rfl, rfl⟩, ⟨_, hcaption, rfl⟩⟩
  | notAnOperator name arity =>
    have hcaption := ((by decide : IsCaption "used as a ").append (isCaption_arityWord arity)).append
      (by decide : IsCaption " operator here")
    exact ⟨rfl, ⟨_, _, rfl, rfl, rfl⟩, ⟨_, hcaption, rfl⟩⟩
  | parameterMode name expected =>
    cases expected with
    | value => exact ⟨rfl, ⟨_, _, rfl, rfl, rfl⟩, ⟨_, by decide, rfl⟩⟩
    | reference => exact ⟨rfl, ⟨_, _, rfl, rfl, rfl⟩, ⟨_, by decide, rfl⟩⟩
  | _ => exact ⟨rfl, ⟨_, _, rfl, rfl, rfl⟩, ⟨_, by decide, rfl⟩⟩

/-! ## Errors in a text -/

theorem mem_errors_tokenize {text : List Char} {e : LexError} (h : e ∈ (tokenize text).errors) :
    ∃ t ∈ (tokenize text).tokens, e.span = t.span := by
  have hspans := forall₂_errors (LineMap.ofText text) 0 text (R := fun t e => e.span = t.span)
    fun _ _ _ _ => rfl
  obtain ⟨t, ht, hspan⟩ := exists_of_forall₂ hspans e h
  exact ⟨t, List.mem_append_left _ (List.mem_of_mem_filter ht), hspan⟩

theorem ended_tokenize (text : List Char) : ended (tokenize text).tokens = (tokenize text).tokens := by
  have hlast : (tokenize text).tokens.getLast? = some (endOfTextToken text) := List.getLast?_concat
  rw [ended, hlast]
  rfl

theorem mem_errors_parseText {text : List Char} {e : ParseError} (h : e ∈ (parseText text).errors) :
    ∃ t ∈ (tokenize text).tokens, e.span = t.span := by
  obtain ⟨-, places, -, -, -, hspans⟩ := (final_recorded (tokenize text).tokens).located
  rw [ended_tokenize] at hspans
  obtain ⟨p, -, hp⟩ := exists_of_forall₂ hspans e h
  obtain ⟨t, ht, hspan⟩ := Option.map_eq_some_iff.1 hp
  exact ⟨t, List.mem_of_getElem? ht, hspan.symm⟩

/-- An error of identification is about an applied occurrence or about a declaration that repeats one. -/
theorem mem_errors_resolve {p : Program} (hids : p.command.ids.Nodup) {e : ResolveError}
    (h : e ∈ (resolve p).errors) :
    (∃ leaf, (Node.command p.command).Applies leaf ∧ e = leaf.undefined) ∨
      ∃ x, (Node.command p.command).Repeats x ∧ e = x.error := by
  obtain ⟨cause, span⟩ := e
  cases cause with
  | undefined name =>
    have hmem : ⟨.undefined name, span⟩ ∈ (missed p).map Leaf.undefined := by
      rw [← undefined_resolve hids]
      exact List.mem_filter.2 ⟨h, rfl⟩
    obtain ⟨leaf, hleaf, herror⟩ := List.mem_map.1 hmem
    exact .inl ⟨leaf, (mem_missed.1 hleaf).1, herror.symm⟩
  | duplicate name previous =>
    obtain ⟨x, hx, herror⟩ := mem_duplicates.1 h
    exact .inr ⟨x, hx, herror.symm⟩

section
variable {text : List Char} {root : Node}

theorem Node.Applies.inText {leaf : Leaf} (h : root.Applies leaf)
    (hplaced : root.Throughout (Node.WellPlaced text)) : leaf.span.InText text := by
  obtain ⟨n, hn, hleaf⟩ := h.exists_part
  have hspan : n.span = leaf.span := congrArg Mark.span (leaf?_eq_some hleaf).1
  exact hspan ▸ (hplaced.of_contains hn).inText

/-- A declaration that repeats a name stands behind the one that it repeats. -/
theorem Node.Repeats.places {c : Command} {x : Redeclaration} (h : (Node.command c).Repeats x)
    (hplaced : (Node.command c).Throughout (Node.WellPlaced text)) :
    x.again.name.span.InText text ∧ x.first.name.span.InText text ∧
      x.first.name.span.start < x.first.name.span.stop ∧
      x.first.name.span.stop ≤ x.again.name.span.start := by
  have hname : ∀ y ∈ c.declared, (Node.ident y.name).WellPlaced text := by
    intro y hy
    obtain ⟨d, hd, hintroduces⟩ := mem_declared_command.1 hy
    exact hplaced.of_contains (hd.child hintroduces.name_mem)
  have hfirst := hname _ h.mem_declared.2
  refine ⟨(hname _ h.mem_declared.1).inText, hfirst.inText, hfirst.nonempty (by simp [spelling?]), ?_⟩
  obtain ⟨m, decl, body, rest, front, back, hlet, hsplit, hfound⟩ := h
  have hdecl := hplaced.part (hlet.child (c := .decl decl) (by simp [children, Command.children]))
  have hapart : decl.declared.Pairwise fun x y => x.name.span.stop ≤ y.name.span.start :=
    List.pairwise_map.1 hdecl.spread.apart
  rw [hsplit] at hapart
  exact (List.pairwise_append.1 hapart).2.2 _ (declaration?_mem hfound).1 _ List.mem_cons_self

theorem TypeError.In.inText {e : TypeError} (h : e.In root)
    (hplaced : root.Throughout (Node.WellPlaced text)) : e.span.InText text := by
  cases h with
  | part hn => exact (hplaced.of_contains hn).inText
  | @operands m op lhs rhs hn =>
    have hlhs := hplaced.of_contains (hn.child (c := .expr lhs) (by simp [Node.children, Expr.children]))
    have hrhs := hplaced.of_contains (hn.child (c := .expr rhs) (by simp [Node.children, Expr.children]))
    exact hlhs.inText.join hrhs.inText

end

/-! ## All phases -/

/-- A diagnostic of a phase is about a place of the text; another place that has to do with it is not empty
and stands in front of that. -/
theorem Phase.exists_points {text : List Char} {k : Phase} {d : Diagnostic} (h : d ∈ k.found text) :
    ∃ span previous?, d.Points k.category span previous? ∧ span.InText text ∧
      ∀ previous ∈ previous?, previous.InText text ∧ previous.start < previous.stop ∧
        previous.stop ≤ span.start := by
  have hplaced := tree_wellPlaced text
  cases k with
  | lexing =>
    obtain ⟨e, he, rfl⟩ := List.mem_map.1 h
    obtain ⟨t, ht, hspan⟩ := mem_errors_tokenize he
    exact ⟨_, _, e.points, hspan ▸ (tokenize_placed text t ht).inText, by simp⟩
  | parsing =>
    obtain ⟨e, he, rfl⟩ := List.mem_map.1 h
    obtain ⟨t, ht, hspan⟩ := mem_errors_parseText he
    exact ⟨_, _, e.points, hspan ▸ (tokenize_placed text t ht).inText, by simp⟩
  | identification =>
    obtain ⟨e, he, rfl⟩ := List.mem_map.1 h
    refine ⟨_, _, e.points, ?_⟩
    rcases mem_errors_resolve (nodup_ids_tree _) he with ⟨leaf, hleaf, rfl⟩ | ⟨x, hx, rfl⟩
    · exact ⟨hleaf.inText hplaced, by simp [ResolveError.previous?, Leaf.undefined]⟩
    · obtain ⟨hagain, hfirst⟩ := hx.places hplaced
      refine ⟨hagain, fun previous hprevious => ?_⟩
      obtain rfl := Option.some.inj hprevious
      exact hfirst
  | typing =>
    obtain ⟨e, he, rfl⟩ := List.mem_map.1 h
    exact ⟨_, _, e.points, (typecheck_places _ _ e he).inText hplaced, by simp⟩

/-- Whatever a phase finds wrong in a text is an error under a code of its category, with one primary label,
and the spans of all labels lie in the text, between boundaries of characters. -/
theorem found_locatable (text : List Char) (k : Phase) : ∀ d ∈ k.found text,
    d.severity = .error ∧
    (∃ code entry, d.code? = some code ∧ ErrorCode.find? code = some entry ∧
      entry.category = k.category) ∧
    (d.labels.filter (·.style = .primary)).length = 1 ∧
    ∀ l ∈ d.labels, l.span.start ≤ l.span.stop ∧ l.span.stop ≤ byteLength text ∧
      IsBoundary text l.span.start ∧ IsBoundary text l.span.stop := by
  intro d hd
  obtain ⟨span, previous?, hpoints, hspan, hprevious⟩ := Phase.exists_points hd
  obtain ⟨message, -, hlabels⟩ := hpoints.labels
  refine ⟨hpoints.severity, hpoints.code, ?_, ?_⟩
  · rw [hlabels]
    cases previous? <;> rfl
  · have hinText : ∀ l ∈ d.labels, l.span.InText text := by
      rw [hlabels]
      refine List.forall_mem_cons.2 ⟨hspan, List.forall_mem_map.2 fun previous hmem => ?_⟩
      exact (hprevious previous (Option.mem_toList.1 hmem)).1
    intro l hl
    exact ⟨(hinText l hl).ordered, (hinText l hl).stop.le, (hinText l hl).start, (hinText l hl).stop⟩

/-- The report of a redeclaration has two labels, both of them in the text. -/
theorem found_locatable_redeclared :
    let text := "let var a Char; var a Char in pass endlet pass".toList
    let d := (ResolveError.mk (.duplicate "a" ⟨8, 9⟩) ⟨20, 21⟩).toDiagnostic
    d ∈ Phase.identification.found text ∧ d.labels.length = 2 ∧
      ∀ l ∈ d.labels, l.span.stop ≤ byteLength text := by
  intro text d
  have hd : d ∈ Phase.identification.found text := by decide +kernel
  exact ⟨hd, rfl, fun l hl => ((found_locatable text _ d hd).2.2.2 l hl).2.1⟩

end TriLang
