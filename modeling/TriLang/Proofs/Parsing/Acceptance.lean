import TriLang.Proofs.Parsing.Attachment
import TriLang.Proofs.Parsing.Completeness
import TriLang.Proofs.Parsing.Soundness

/-! # What the parser accepts

The word of a list of tokens is what the grammar sees of the tokens in front of the end of the text. The
parser accepts the words that have an innermost derivation within the nesting limit, and the tree it builds
is the one that is derived, its nodes numbered from 0 in the order in which they are finished. -/
namespace TriLang
open TriLang.Parser
set_option autoImplicit false

/-- What the grammar sees of the tokens in front of the end of the text. -/
def Parser.word (tokens : List Token) : List Terminal :=
  (tokens.takeWhile (·.kind ≠ .endOfText)).map Terminal.ofToken

/-- The word of the tokens is derived, every `;` belonging to the innermost open list of commands. -/
structure CommandDerivation.Derives (D : CommandDerivation .chain) (tokens : List Token) : Prop where
  yield : D.yield = word tokens
  innermost : D.Innermost

/-! ## Before and after reading -/

namespace Parser
variable (tokens : List Token)

theorem kind_stopToken : (stopToken tokens).kind = .endOfText := by
  unfold stopToken
  split
  · next stop hfind => simpa using List.find?_some hfind
  · split <;> rfl

theorem initial_wellFormed : (initial tokens).WellFormed := by
  refine ⟨kind_stopToken tokens, fun t ht => ?_⟩
  simpa using List.all_eq_true.1 List.all_takeWhile t ht

theorem initial_clean : (initial tokens).Clean := ⟨rfl, rfl⟩

theorem initial_input : (initial tokens).input = word tokens := rfl

/-- The state in which the parser stops: behind a command the end of the text has to stand. -/
def final : State :=
  let after := (command maxDepth (initial tokens)).after
  if after.kind = .endOfText then after else after.report (.expected (.token .endOfText) after.kind)

theorem errors_parse : (parse tokens).errors = (final tokens).errors := rfl

theorem final_reads : Reads (initial tokens) (final tokens) := by
  have hcommand := command_reads maxDepth (initial tokens)
  unfold final
  dsimp only
  split
  · exact hcommand
  · exact hcommand.trans (State.report_reads _ _ (by simp))

theorem final_clean_iff : (final tokens).Clean ↔ (parse tokens).errors = [] := by
  refine ⟨fun h => h.1, fun h => ⟨h, ?_⟩⟩
  cases ha : (final tokens).abandoned with
  | false => rfl
  | true =>
    exact absurd h ((final_reads tokens).accounted (by simp [State.Accounted, initial]) ha)

/-- Without errors the command was read as one, and nothing stands behind it. -/
theorem of_final_clean {tokens : List Token} (h : (final tokens).Clean) :
    (command maxDepth (initial tokens)).after.Clean ∧
      (command maxDepth (initial tokens)).after.input = [] := by
  have hwf := (command_reads maxDepth _).wellFormed (initial_wellFormed tokens)
  unfold final at h
  dsimp only at h
  split at h
  · next hk =>
    refine ⟨h, ?_⟩
    rw [hwf.kind_eq] at hk
    cases hi : (command maxDepth (initial tokens)).after.input with
    | nil => rfl
    | cons t w =>
      obtain ⟨u, hu, rfl⟩ := List.mem_map.1 (hi ▸ List.mem_cons_self : t ∈ State.input _)
      rw [hi, nextKind_cons, Terminal.kind_ofToken] at hk
      exact absurd hk (hwf.2 u hu)
  · exact absurd h (State.not_clean_report _ _)

end Parser

/-- What stands behind a token for the end of the text plays no part. -/
theorem Parser.initial_append {stop : Token} (hstop : stop.kind = .endOfText)
    (front rest rest' : List Token) :
    initial (front ++ stop :: rest) = initial (front ++ stop :: rest') := by
  have htake : ∀ rest, (front ++ stop :: rest).takeWhile (·.kind ≠ .endOfText) =
      front.takeWhile (·.kind ≠ .endOfText) := by
    intro rest
    induction front with
    | nil => simp [hstop]
    | cons t front ih => simp only [List.cons_append, List.takeWhile_cons, ih]
  have hfind : ∀ rest, (front ++ stop :: rest).find? (·.kind = .endOfText) =
      some ((front.find? (·.kind = .endOfText)).getD stop) := by
    intro rest
    rw [List.find?_append, List.find?_cons_of_pos (by simpa using hstop)]
    cases front.find? (·.kind = .endOfText) <;> rfl
  simp only [initial, stopToken, htake, hfind]

/-! ## Soundness and completeness for lists of tokens -/

/-- What is read without an error has an innermost derivation within the limit, and the tree is the one
that is derived, numbered from 0 on. -/
theorem exists_derivation_of_parse {tokens : List Token} (h : (parse tokens).errors = []) :
    ∃ D : CommandDerivation .chain, D.Derives tokens ∧ D.depth ≤ maxDepth ∧
      (parse tokens).program.command.unspanned = D.tree.numbered 0 := by
  obtain ⟨hclean, hend⟩ := of_final_clean ((final_clean_iff tokens).2 h)
  obtain ⟨⟨D, hdepth, hinner, hread, -⟩, -⟩ :=
    command_sound maxDepth _ (initial_wellFormed tokens) hclean
  have hyield : word tokens = D.yield ++ [] := by
    rw [← initial_input, hread.took.input, hend]
  exact ⟨D, ⟨by rw [hyield, List.append_nil], hinner⟩, hdepth, hread.node⟩

/-- What an innermost derivation derives is read as it has it, or else meets the nesting limit. -/
theorem CommandDerivation.Derives.outcome {D : CommandDerivation .chain} {tokens : List Token}
    (h : D.Derives tokens) (levels : Nat) :
    Outcome D.depth levels (D.ReadAs (initial tokens) (command levels (initial tokens)))
      (command levels (initial tokens)).after := by
  have hwf := initial_wellFormed tokens
  have hi : (initial tokens).input = D.yield ++ [] := by rw [initial_input, h.yield, List.append_nil]
  exact D.handles.outcome levels hwf (initial_clean tokens) hi h.innermost rfl (by simp)

theorem CommandDerivation.Derives.parse_of_le {D : CommandDerivation .chain} {tokens : List Token}
    (h : D.Derives tokens) (hdepth : D.depth ≤ maxDepth) :
    (parse tokens).errors = [] ∧
      (parse tokens).program.command.unspanned = D.tree.numbered 0 := by
  rcases h.outcome maxDepth with ⟨-, hclean, hread⟩ | ⟨hlt, -⟩
  · have hend : (command maxDepth (initial tokens)).after.kind = .endOfText := by
      have hi : (initial tokens).input = D.yield ++ [] := by
        rw [initial_input, h.yield, List.append_nil]
      rw [((command_reads maxDepth _).wellFormed (initial_wellFormed tokens)).kind_eq,
        hread.took.input_eq hi]
      rfl
    refine ⟨?_, hread.node⟩
    rw [errors_parse, final]
    simp only [hend, if_true]
    exact hclean.1
  · exact absurd hdepth (Nat.not_le.2 hlt)

theorem CommandDerivation.Derives.tree_of_le {D : CommandDerivation .chain} {tokens : List Token}
    (h : D.Derives tokens) (hdepth : D.depth ≤ maxDepth) :
    (parse tokens).program.command.bare = D.tree ∧ (parse tokens).program.command.ErrorFree := by
  have htree := (h.parse_of_le hdepth).2
  have hbare : (parse tokens).program.command.bare = D.tree := by
    rw [← Command.bare_unspanned, htree, Command.bare_numbered, D.bare_tree]
  have hfree : (parse tokens).program.command.bare.ErrorFree := by
    rw [hbare]
    exact D.errorFree_tree
  exact ⟨hbare, (Command.errorFree_mapMarks _ _).1 hfree⟩

/-- The nodes of a tree that is read without an error are numbered apart, and all of them could be read. -/
theorem nodup_ids_of_parse {tokens : List Token} (h : (parse tokens).errors = []) :
    (parse tokens).program.command.ids.Nodup ∧ (parse tokens).program.command.ErrorFree := by
  obtain ⟨D, hD, hdepth, htree⟩ := exists_derivation_of_parse h
  exact ⟨Command.nodup_ids_of_unspanned htree, (hD.tree_of_le hdepth).2⟩

theorem CommandDerivation.Derives.parse_of_lt {D : CommandDerivation .chain} {tokens : List Token}
    (h : D.Derives tokens) (hdepth : maxDepth < D.depth) :
    ∃ span, (parse tokens).errors = [⟨.tooDeep, span⟩] := by
  rcases h.outcome maxDepth with ⟨hle, -⟩ | ⟨-, hover⟩
  · exact absurd hdepth (Nat.not_lt.2 hle)
  · have hfinal : Reads (command maxDepth (initial tokens)).after (final tokens) := by
      unfold final
      dsimp only
      split
      · exact .refl
      · exact State.report_reads _ _ (by simp)
    exact (hover.reads hfinal).2

/-- Derivations of one word that are both innermost have the same depth and the same tree, so that it
makes sense to speak of *the* tree of a word. -/
theorem CommandDerivation.Derives.unique {D E : CommandDerivation .chain} {tokens : List Token}
    (hD : D.Derives tokens) (hE : E.Derives tokens) : D.depth = E.depth ∧ D.tree = E.tree := by
  have hle : ∀ {D E : CommandDerivation .chain}, D.Derives tokens → E.Derives tokens →
      D.depth ≤ E.depth := by
    intro D E hD hE
    rcases hD.outcome E.depth with ⟨hle, -⟩ | ⟨-, hover⟩
    · exact hle
    · rcases hE.outcome E.depth with ⟨-, hclean, -⟩ | ⟨hlt, -⟩
      · exact absurd hover.1 (by rw [hclean.2]; simp)
      · exact absurd hlt (Nat.lt_irrefl _)
  refine ⟨Nat.le_antisymm (hle hD hE) (hle hE hD), ?_⟩
  rcases hD.outcome D.depth with ⟨-, -, hread⟩ | ⟨hlt, -⟩
  · rcases hE.outcome D.depth with ⟨-, -, hread'⟩ | ⟨hlt, -⟩
    · have htree : D.tree.numbered 0 = E.tree.numbered 0 := hread.node.symm.trans hread'.node
      rw [← D.bare_tree, ← D.tree.bare_numbered 0, htree, E.tree.bare_numbered 0, E.bare_tree]
    · exact absurd hlt (Nat.not_lt.2 (hle hE hD))
  · exact absurd hlt (Nat.lt_irrefl _)

/-! ## The language of the parser -/

/-- The parser accepts exactly what the grammar derives with every `;` in the innermost open list, nested
no deeper than the limit, and builds the tree that is derived. Deeper nesting gives one error and no other.
Every derivable word has a derivation of that kind, and all of them have the same tree. Tokens behind the
first one for the end of the text change neither the command nor the errors. -/
theorem parse_accepts_grammar (tokens : List Token) :
    ((parse tokens).errors = [] ↔
      ∃ D : CommandDerivation .chain, D.Derives tokens ∧ D.depth ≤ maxDepth) ∧
    (∀ D : CommandDerivation .chain, D.Derives tokens → D.depth ≤ maxDepth →
      (parse tokens).program.command.bare = D.tree ∧ (parse tokens).program.command.ErrorFree) ∧
    (∀ D : CommandDerivation .chain, D.Derives tokens → maxDepth < D.depth →
      ∃ span, (parse tokens).errors = [⟨.tooDeep, span⟩]) ∧
    (∀ D : CommandDerivation .chain, D.yield = word tokens →
      ∃ E : CommandDerivation .chain, E.Derives tokens) ∧
    (∀ D E : CommandDerivation .chain, D.Derives tokens → E.Derives tokens →
      D.depth = E.depth ∧ D.tree = E.tree) ∧
    (∀ (front rest rest' : List Token) (stop : Token), tokens = front ++ stop :: rest →
      stop.kind = .endOfText →
      (parse (front ++ stop :: rest')).program.command = (parse tokens).program.command ∧
        (parse (front ++ stop :: rest')).errors = (parse tokens).errors) := by
  refine ⟨⟨?_, ?_⟩, ?_, ?_, ?_, ?_, ?_⟩
  · intro h
    obtain ⟨D, hD, hdepth, -⟩ := exists_derivation_of_parse h
    exact ⟨D, hD, hdepth⟩
  · rintro ⟨D, hD, hdepth⟩
    exact (hD.parse_of_le hdepth).1
  · intro D hD hdepth
    exact hD.tree_of_le hdepth
  · intro D hD hdepth
    exact hD.parse_of_lt hdepth
  · intro D hD
    exact ⟨D.reattached, D.yield_reattached.trans hD, D.innermost_reattached⟩
  · intro D E hD hE
    exact hD.unique hE
  · rintro front rest rest' stop rfl hstop
    simp only [parse, initial_append hstop front rest' rest, and_self]

/-- In `while c do wend ; pass` the `;` stands behind an empty command that follows `wend`, so it belongs
to the loop and not to the program. -/
theorem parse_while_continuation :
    let tokens := (tokenize "while c do wend ; pass".toList).tokens
    (parse tokens).errors = [] ∧ (parse tokens).program.command.bare =
      .whileDo default (.name default ⟨default, "c"⟩) (.blank default)
        (.seq default (.blank default) (.blank default)) := by
  let D : CommandDerivation .chain :=
    .single (.whileDo (.single (.name "c")) (.single .empty) (.seq (.single .empty) .pass))
  have hD : D.Derives (tokenize "while c do wend ; pass".toList).tokens :=
    ⟨by decide +kernel, trivial, rfl, trivial, trivial⟩
  have hdepth : D.depth ≤ maxDepth := by decide
  exact ⟨(parse_accepts_grammar _).1.2 ⟨D, hD, hdepth⟩,
    ((parse_accepts_grammar _).2.1 D hD hdepth).1⟩

end TriLang
