import TriLang.Proofs.Printing.RoundTrip

/-! # What formatting does to a program without errors

Formatting adds no lexical errors to a program, and no syntax errors but the one for nesting too deep. It adds
that one to programs that are near the limit and have lifted conditionals (`format_readable_iff`): reading
counts the levels of the source, and the layout may have more.

Formatting again changes nothing (`format_format`). A layout that is over the limit is a text with an error,
which is left alone, and any other layout is read as the tree that it was made from. -/
namespace TriLang
open TriLang.Parser
set_option autoImplicit false

theorem format_eq_print {text : List Char} (width : Nat) (hlex : (tokenize text).errors = [])
    (hparse : (parseText text).errors = []) :
    format width text = (parseText text).program.print width := by
  have hparse' : (parse (tokenize text).tokens).errors = [] := hparse
  simp only [format, hlex, hparse', List.isEmpty_nil, if_true]
  rfl

/-- A program without errors has no lexical errors after formatting. It has no syntax errors either if its
layout nests within the limit, and otherwise the one for nesting too deep. It is within the limit if there are
no lifted conditionals, or if the source nests no deeper than two thirds of the limit. -/
theorem format_readable_iff (text : List Char) (width : Nat) (hlex : (tokenize text).errors = [])
    (hparse : (parseText text).errors = []) :
    let c := (parseText text).program.command
    let formatted := format width text
    (tokenize formatted).errors = [] ∧
      ((parseText formatted).errors = [] ↔ c.nesting false ≤ maxDepth) ∧
      (maxDepth < c.nesting false → ∃ span, (parseText formatted).errors = [⟨.tooDeep, span⟩]) ∧
      (c.lifts false = 0 → (parseText formatted).errors = []) ∧
      ∀ D : CommandDerivation .chain, D.Derives (tokenize text).tokens →
        3 * D.depth ≤ 2 * maxDepth + 1 → (parseText formatted).errors = [] := by
  intro c formatted
  obtain ⟨hformatted, D, E, hD, hdepth, hbare, -, hE, -, hlevels⟩ :=
    exists_derivation_of_print text width hlex hparse
  rw [← format_eq_print width hlex hparse] at hformatted hE
  have hnesting : D.tree.nesting false = c.nesting false := by
    rw [← hbare]
    exact c.nesting_mapMarks _ false
  have hlifts : D.tree.lifts false = c.lifts false := by
    rw [← hbare]
    exact c.lifts_mapMarks _ false
  have hwithin : c.nesting false ≤ maxDepth → (parseText formatted).errors = [] := by
    intro hle
    exact (hE.parse_of_le (by omega)).1
  have hover : maxDepth < c.nesting false →
      ∃ span, (parseText formatted).errors = [⟨.tooDeep, span⟩] := by
    intro hlt
    exact hE.parse_of_lt (by omega)
  -- how much deeper than the source the layout is
  have hsource : c.nesting false ≤ D.depth + c.lifts false := by
    have hle := (D.nesting_tree_le hD.innermost).1
    omega
  have hhalf : 2 * c.lifts false ≤ D.depth := by
    have htrue := D.lifts_tree_le.1
    have hmono := D.tree.lifts_false_le true
    omega
  refine ⟨hformatted, ⟨fun herrors => ?_, hwithin⟩, hover, fun hnone => ?_, fun D' hD' hthird => ?_⟩
  · refine Nat.le_of_not_lt fun hlt => ?_
    obtain ⟨span, hspan⟩ := hover hlt
    exact absurd (herrors.symm.trans hspan) (List.cons_ne_nil _ _).symm
  · exact hwithin (by omega)
  · have hsame := (hD.unique hD').1
    exact hwithin (by omega)

/-- The limit is met by the source, whose condition nests as deep as a condition may. In the layout the
condition is one level further down, for the block around the loop has to stand around the conditional. -/
theorem format_readable_iff_lifted :
    let text := "if ".toList ++ (List.replicate 254 "\\ ".toList).flatten ++
      "b then pass else begin while b do wend end; pass".toList
    let c := (parseText text).program.command
    let formatted := format 4 text
    ((tokenize text).errors = [] ∧ (parseText text).errors = []) ∧ (tokenize formatted).errors = [] ∧
      c.nesting false = 257 ∧ ∃ span, (parseText formatted).errors = [⟨.tooDeep, span⟩] := by
  intro text c formatted
  have hlex : (tokenize text).errors = [] := by decide +kernel
  have hparse : (parseText text).errors = [] := by decide +kernel
  have hnesting : c.nesting false = 257 := by decide +kernel
  obtain ⟨hformatted, -, hover, -⟩ := format_readable_iff text 4 hlex hparse
  exact ⟨⟨hlex, hparse⟩, hformatted, hnesting, hover (by rw [hnesting]; decide)⟩

/-! ## Formatting again -/

theorem format_of_errors {text : List Char} (width : Nat)
    (h : (tokenize text).errors = [] → (parseText text).errors ≠ []) : format width text = text := by
  unfold format
  dsimp only
  split
  · next hlex =>
    have hparse : (parse (tokenize text).tokens).errors ≠ [] := h (List.isEmpty_iff.1 hlex)
    rw [if_neg (by rwa [List.isEmpty_iff])]
  · rfl

/-- What is printed depends on a tree only up to its spans. -/
theorem Program.print_congr {p q : Program} (h : p.command.unspanned = q.command.unspanned)
    (width : Nat) : p.print width = q.print width := by
  have hlayout : ∀ p : Program, p.layout = p.command.unspanned.layout false 0 :=
    fun p => (p.command.layout_mapMarks Mark.unspanned false 0).symm
  rw [print, print, hlayout p, hlayout q, h]

/-- Formatting twice is formatting once, whatever the text is. -/
theorem format_format (text : List Char) (width : Nat) :
    format width (format width text) = format width text := by
  by_cases hclean : (tokenize text).errors = [] ∧ (parseText text).errors = []
  · obtain ⟨hlex, hparse⟩ := hclean
    obtain ⟨hprinted, D, E, -, -, -, htree, hE, hsame, -⟩ :=
      exists_derivation_of_print text width hlex hparse
    rw [format_eq_print width hlex hparse]
    by_cases hdepth : E.depth ≤ maxDepth
    · -- the layout is read as the same tree, which has the same layout
      obtain ⟨herrors, hread⟩ := hE.parse_of_le hdepth
      rw [format_eq_print width hprinted herrors]
      exact Program.print_congr (hread.trans (by rw [hsame, htree])) width
    · obtain ⟨span, hspan⟩ := hE.parse_of_lt (Nat.lt_of_not_le hdepth)
      refine format_of_errors width fun _ hnone => ?_
      exact List.cons_ne_nil _ _ (hspan.symm.trans hnone)
  · have hsame : format width text = text :=
      format_of_errors width fun hlex hparse => hclean ⟨hlex, hparse⟩
    rw [hsame, hsame]

end TriLang
