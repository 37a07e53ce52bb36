import TriLang.Proofs.Parsing.Grammar
import TriLang.Proofs.Parsing.Steps
import TriLang.Proofs.Syntax.Numbering

/-! # The input that is left

`State.input` is what the grammar sees of the tokens that are still to be read. `Took s t w n` says that
between two states the word `w` was read and `n` nodes were finished; one lemma for each small reading
function says what it takes. -/
namespace TriLang.Parser
set_option autoImplicit false

/-! ## The input that is left -/

/-- The kind of the first terminal of a word, or that of the end of the text. -/
def nextKind (w : List Terminal) : Token.Kind := (w.head?.map Terminal.kind).getD .endOfText

@[simp] theorem nextKind_nil : nextKind [] = .endOfText := rfl

@[simp] theorem nextKind_cons (t : Terminal) (w : List Terminal) : nextKind (t :: w) = t.kind := rfl

namespace State
variable {s : State}

/-- What the grammar sees of the tokens still to be read. -/
def input (s : State) : List Terminal := s.rest.map Terminal.ofToken

theorem input_advance (s : State) : s.advance.input = s.input.tail := by
  rw [input, advance_rest, List.map_tail, input]

theorem WellFormed.kind_eq (h : s.WellFormed) : s.kind = nextKind s.input := by
  unfold kind current input
  cases hr : s.rest with
  | nil => exact h.1
  | cons t rest => simp [Terminal.kind_ofToken]

theorem WellFormed.input_eq_cons (h : s.WellFormed) (hk : s.kind ≠ .endOfText) :
    s.input = Terminal.ofToken s.current :: s.advance.input := by
  rw [input_advance]
  unfold input kind current at *
  cases hr : s.rest with
  | nil => rw [hr] at hk; exact absurd h.1 hk
  | cons t rest => simp

theorem WellFormed.rest_pos (h : s.WellFormed) (hk : s.kind ≠ .endOfText) : 0 < s.rest.length := by
  have hlen := congrArg List.length (h.input_eq_cons hk)
  simp only [input, List.length_map, List.length_cons] at hlen
  omega

theorem WellFormed.advance_lt (h : s.WellFormed) (hk : s.kind ≠ .endOfText) :
    s.advance.rest.length < s.rest.length := by
  have hpos := h.rest_pos hk
  rw [advance_rest, List.length_tail]
  omega

/-- What stands first in the input tells what the current token is. -/
theorem WellFormed.of_input_cons (h : s.WellFormed) {t : Terminal} {w : List Terminal}
    (hi : s.input = t :: w) (ht : t.kind ≠ .endOfText) :
    s.kind = t.kind ∧ Terminal.ofToken s.current = t ∧ s.advance.input = w := by
  have hk : s.kind = t.kind := by rw [h.kind_eq, hi, nextKind_cons]
  have hc := h.input_eq_cons (by rw [hk]; exact ht)
  rw [hi, List.cons.injEq] at hc
  exact ⟨hk, hc.1.symm, hc.2.symm⟩

theorem advance_clean : s.advance.Clean ↔ s.Clean := by
  rw [Clean, Clean, advance_errors, advance_abandoned]

theorem Clean.advance (h : s.Clean) : s.advance.Clean := advance_clean.2 h

theorem WellFormed.advance (h : s.WellFormed) : s.advance.WellFormed := s.advance_reads.wellFormed h

end State

/-- Whether a token of the kind says no more than its kind. -/
def isFixed : Token.Kind → Bool
  | .intLiteral | .charLiteral | .identifier | .operator | .endOfText => false
  | _ => true

theorem ofToken_of_isFixed {t : Token} {kind : Token.Kind} (hf : isFixed kind = true)
    (ht : t.kind = kind) : Terminal.ofToken t = .fixed kind := by
  subst ht
  unfold Terminal.ofToken Terminal.ofSpelling
  split
  all_goals first | rfl | simp_all [isFixed]

/-! ## Taking a word -/

/-- Between two states the word was read and so many nodes were finished. -/
structure Took (s t : State) (word : List Terminal) (nodes : Nat) : Prop where
  input : s.input = word ++ t.input
  nextId : t.nextId = s.nextId + nodes

namespace Took
variable {s t u : State} {v w : List Terminal} {m n : Nat}

theorem trans (h : Took s t v m) (h' : Took t u w n) : Took s u (v ++ w) (m + n) :=
  ⟨by rw [h.input, h'.input, List.append_assoc], by rw [h'.nextId, h.nextId, Nat.add_assoc]⟩

/-- What was taken first is what is left behind no more. -/
theorem input_eq (h : Took s t w n) {r : List Terminal} (hs : s.input = w ++ r) : t.input = r :=
  List.append_cancel_left (h.input.symm.trans hs)

theorem finishAt {α : Type} (h : Took s t w n) (span : Span) (build : Mark → α) :
    Took s (t.finishAt span build).after w (n + 1) :=
  ⟨h.input, by rw [← Nat.add_assoc, ← h.nextId]; rfl⟩

theorem finish {α : Type} (h : Took s t w n) (start : Nat) (build : Mark → α) :
    Took s (t.finish start build).after w (n + 1) := h.finishAt _ build

end Took

namespace State
variable {s : State}

theorem WellFormed.took_advance (h : s.WellFormed) (hk : s.kind ≠ .endOfText) :
    Took s s.advance [Terminal.ofToken s.current] 0 :=
  ⟨h.input_eq_cons hk, s.advance_nextId⟩

theorem ofToken_of_identifier (hk : s.kind = .identifier) :
    Terminal.ofToken s.current = .name s.current.spelling := by
  unfold kind at hk; simp only [Terminal.ofToken, Terminal.ofSpelling, hk]

theorem ofToken_of_operator (hk : s.kind = .operator) :
    Terminal.ofToken s.current = .operator s.current.spelling := by
  unfold kind at hk; simp only [Terminal.ofToken, Terminal.ofSpelling, hk]

theorem WellFormed.took_readIdent (h : s.WellFormed) (hk : s.kind = .identifier) :
    Took s s.readIdent.after [.name s.current.spelling] 1 := by
  have hadvance := h.took_advance (by rw [hk]; decide)
  rw [ofToken_of_identifier hk] at hadvance
  exact hadvance.finishAt _ _

theorem WellFormed.took_readOperator (h : s.WellFormed) (hk : s.kind = .operator) :
    Took s s.readOperator.after [.operator s.current.spelling] 1 := by
  have hadvance := h.took_advance (by rw [hk]; decide)
  rw [ofToken_of_operator hk] at hadvance
  exact hadvance.finishAt _ _

theorem readIdent_node (s : State) :
    s.readIdent.node.mapMarks .unspanned = ⟨.numbered s.nextId, s.current.spelling⟩ := by
  simp [readIdent, finishAt, Ident.mapMarks, Mark.unspanned, Mark.numbered, advance_nextId]

theorem readOperator_node (s : State) :
    s.readOperator.node.mapMarks .unspanned = ⟨.numbered s.nextId, s.current.spelling⟩ := by
  simp [readOperator, finishAt, Operator.mapMarks, Mark.unspanned, Mark.numbered, advance_nextId]

theorem WellFormed.took_fixed (h : s.WellFormed) {kind : Token.Kind} (hf : isFixed kind = true)
    (hk : s.kind = kind) : Took s s.advance [.fixed kind] 0 := by
  have hend : kind ≠ .endOfText := by rintro rfl; simp [isFixed] at hf
  have hadvance := h.took_advance (by rw [hk]; exact hend)
  rwa [ofToken_of_isFixed hf hk] at hadvance

theorem expect_of_kind {kind : Token.Kind} (hk : s.kind = kind) : s.expect kind = s.advance := by
  simp [expect, hk]

/-- A token that was asked for was there, if nothing went wrong. -/
theorem kind_of_expect_clean {kind : Token.Kind} (h : (s.expect kind).Clean) : s.kind = kind := by
  unfold expect at h
  split at h
  · next hk => exact hk
  · exact absurd h (not_clean_report s _)

theorem WellFormed.took_expect (h : s.WellFormed) {kind : Token.Kind} (hf : isFixed kind = true)
    (hc : (s.expect kind).Clean) : Took s (s.expect kind) [.fixed kind] 0 := by
  have hk := kind_of_expect_clean hc
  rw [expect_of_kind hk]
  exact h.took_fixed hf hk

end State

end TriLang.Parser
