import TriLang.Proofs.Lexing.Reading
import TriLang.Syntax.Layout

/-! # The text of a layout is read as its tokens

Pieces are `Spaced` if every word, number and operator among them has something behind it that it cannot run
into. The text of spaced pieces is read, without errors, as the tokens among them (`lexes_render`), whatever
the width of a level. A layout is spaced if the tree is `Readable`: no node of it stands in for something
that could not be read, and its names, operators and numbers are spelled as such. -/
namespace TriLang
set_option autoImplicit false

/-! ## Pieces -/

namespace Layout

/-- Whether no word, number or operator in front of the piece can run into it. -/
def Piece.separates : Piece → Bool
  | line _ => true
  | gap => true
  | token kind _ => kind = .semicolon || kind = .leftBracket || kind = .rightBracket
  | placeholder => false

/-- Nothing in front of the pieces can run into them. -/
def Separated (pieces : List Piece) : Prop := ∀ p ∈ pieces.head?, p.separates = true

/-- All tokens are spelled as their kinds say, and none runs into what stands behind it. -/
def Spaced : List Piece → Prop
  | [] => True
  | .line _ :: rest => Spaced rest
  | .gap :: rest => Spaced rest
  | .token kind spelling :: rest =>
    IsSpelling kind spelling ∧ (kind.delimited = true ∨ Separated rest) ∧ Spaced rest
  | .placeholder :: _ => False

theorem renderFrom_line (width level : Nat) (begun : Bool) (rest : List Piece) :
    renderFrom width begun (.line level :: rest) =
      ((if begun then ['\n'] else []) ++ List.replicate (level * width) ' ') ++
        renderFrom width (begun || !(List.replicate (level * width) ' ').isEmpty) rest := by
  rw [renderFrom]

theorem renderFrom_gap (width : Nat) (begun : Bool) (rest : List Piece) :
    renderFrom width begun (.gap :: rest) = ' ' :: renderFrom width true rest := by
  cases begun <;> rfl

theorem renderFrom_token (width : Nat) (begun : Bool) {kind : Token.Kind} {spelling : String}
    (h : IsSpelling kind spelling) (rest : List Piece) :
    renderFrom width begun (.token kind spelling :: rest) =
      spelling.toList ++ renderFrom width true rest := by
  obtain ⟨c, tail, hspelling, -⟩ := h
  have htoken : renderFrom width begun (.token kind spelling :: rest) =
      spelling.toList ++ renderFrom width (begun || !spelling.toList.isEmpty) rest := rfl
  rw [htoken, hspelling]
  simp

theorem stops_renderFrom {pieces : List Piece} (width : Nat) (h : Spaced pieces)
    (hsep : Separated pieces) {tail : List Char} (htail : Stops tail) :
    Stops (renderFrom width true pieces ++ tail) := by
  cases pieces with
  | nil => exact htail
  | cons p rest =>
    have hp := hsep p (by simp)
    cases p with
    | line level =>
      rw [renderFrom_line]
      intro c hc
      obtain rfl : '\n' = c := by simpa using hc
      exact ⟨by decide, by decide⟩
    | gap =>
      rw [renderFrom_gap]
      intro c hc
      obtain rfl : ' ' = c := by simpa using hc
      exact ⟨by decide, by decide⟩
    | token kind spelling =>
      rw [renderFrom_token width true h.1]
      obtain ⟨c, tail, hspelling, hs⟩ := h.1
      rw [hspelling]
      intro d hd
      obtain rfl : c = d := by simpa using hd
      exact hs.stops (by simpa [Piece.separates, or_assoc] using hp)
    | placeholder => exact absurd h id

theorem lexes_renderFrom {pieces : List Piece} (width : Nat) (begun : Bool) (h : Spaced pieces)
    {tail : List Char} (htail : Lexes tail []) (hstop : Stops tail) :
    Lexes (renderFrom width begun pieces ++ tail) (tokens pieces) := by
  induction pieces generalizing begun with
  | nil => exact htail
  | cons p rest ih =>
    cases p with
    | line level =>
      rw [renderFrom_line, List.append_assoc]
      refine Lexes.blanks (fun c hc => ?_) (ih _ h)
      have hblank : c = '\n' ∨ c = ' ' := by
        rcases List.mem_append.1 hc with hc | hc
        · left; cases begun <;> simp_all
        · exact .inr (List.eq_of_mem_replicate hc)
      rcases hblank with rfl | rfl <;> rfl
    | gap =>
      rw [renderFrom_gap]
      exact Lexes.blank rfl (ih true h)
    | token kind spelling =>
      rw [renderFrom_token width begun h.1, List.append_assoc]
      refine Lexes.spelling h.1 ?_ (ih true h.2.2)
      exact h.2.1.imp_right fun hsep => stops_renderFrom width h.2.2 hsep hstop
    | placeholder => exact absurd h id

/-- The text of spaced pieces is read as the tokens among them. -/
theorem lexes_render {pieces : List Piece} (width : Nat) (h : Spaced pieces) :
    Lexes (render width pieces) (tokens pieces) := by
  have hstop : Stops [] := by simp [Stops]
  unfold render
  dsimp only
  split
  · have hlexes := lexes_renderFrom width false h .nil hstop
    rwa [List.append_nil] at hlexes
  · exact lexes_renderFrom width false h (.blank rfl .nil) (by simp [Stops]; decide)

/-! ## Pieces in front of others -/

@[simp] theorem separated_nil : Separated [] := by simp [Separated]

@[simp] theorem separated_cons (p : Piece) (rest : List Piece) :
    Separated (p :: rest) ↔ p.separates = true := by simp [Separated]

theorem Separated.cons {p : Piece} (h : p.separates = true) (rest : List Piece) :
    Separated (p :: rest) := (separated_cons p rest).2 h

@[simp] theorem separates_semicolon : semicolon.separates = true := rfl

@[simp] theorem spaced_word (k : Keyword) (rest : List Piece) :
    Spaced (word k :: rest) ↔ Separated rest ∧ Spaced rest := by
  simp [word, Spaced, isSpelling_keyword, Token.Kind.delimited]

@[simp] theorem spaced_name (spelling : String) (rest : List Piece) :
    Spaced (name spelling :: rest) ↔
      IsSpelling .identifier spelling ∧ Separated rest ∧ Spaced rest := by
  simp [name, Spaced, Token.Kind.delimited]

@[simp] theorem spaced_operator (spelling : String) (rest : List Piece) :
    Spaced (.token .operator spelling :: rest) ↔
      IsSpelling .operator spelling ∧ Separated rest ∧ Spaced rest := by
  simp [Spaced, Token.Kind.delimited]

@[simp] theorem spaced_semicolon (rest : List Piece) : Spaced (semicolon :: rest) ↔ Spaced rest := by
  have hspelling : IsSpelling .semicolon ";" := ⟨_, _, rfl, .semicolon⟩
  simp [semicolon, Spaced, hspelling, Token.Kind.delimited]

/-- The pieces are spaced in front of anything that they cannot run into. -/
def Fits (pieces : List Piece) : Prop :=
  ∀ rest, Spaced rest → Separated rest → Spaced (pieces ++ rest)

/-- The pieces fit, and they begin with a new line, so nothing runs into them. -/
structure Lined (pieces : List Piece) : Prop where
  fits : Fits pieces
  separated : ∀ rest, Separated (pieces ++ rest)

theorem Lined.enclosedIf {lines : Nat → List Piece} (h : ∀ level, Lined (lines level))
    (enclosed : Bool) (level : Nat) : Lined (enclosedIf enclosed lines level) := by
  unfold Layout.enclosedIf
  split
  · refine ⟨fun rest hrest hsep => ?_, fun rest => .cons rfl _⟩
    have hend : Spaced (.line level :: word .endKw :: rest) := (spaced_word _ _).2 ⟨hsep, hrest⟩
    have hlines := (h (level + 1)).fits _ hend (.cons rfl _)
    simpa [Spaced] using ⟨(h (level + 1)).separated _, hlines⟩
  · exact h level

end Layout

open Layout

/-! ## Trees that can be read -/

/-- Every leaf of the expression is spelled as its kind says, and none is missing. -/
def Expr.Readable : Expr → Prop
  | binary _ op lhs rhs => IsSpelling .operator op.spelling ∧ lhs.Readable ∧ rhs.Readable
  | unary _ op operand => IsSpelling .operator op.spelling ∧ operand.Readable
  | int _ spelling => IsSpelling .intLiteral spelling
  | char _ _ => True
  | name _ ident => IsSpelling .identifier ident.name
  | error _ => False

def Param.Readable : Param → Prop
  | value _ expr => expr.Readable
  | reference _ ident => IsSpelling .identifier ident.name
  | blank _ => True
  | error _ => False

def Decl.Readable : Decl → Prop
  | const _ name value => IsSpelling .identifier name.name ∧ value.Readable
  | var _ name type => IsSpelling .identifier name.name ∧ IsSpelling .identifier type.name.name
  | seq _ first second => first.Readable ∧ second.Readable
  | error _ => False

def Command.Readable : Command → Prop
  | assign _ target value => IsSpelling .identifier target.name ∧ value.Readable
  | call _ callee param => IsSpelling .identifier callee.name ∧ param.Readable
  | cond _ c thenBranch elseBranch => c.Readable ∧ thenBranch.Readable ∧ elseBranch.Readable
  | whileDo _ c body rest => c.Readable ∧ body.Readable ∧ rest.Readable
  | doWhile _ body c => body.Readable ∧ c.Readable
  | letIn _ decl body rest => decl.Readable ∧ body.Readable ∧ rest.Readable
  | seq _ first second => first.Readable ∧ second.Readable
  | blank _ => True
  | error _ => False

/-! ## Their layouts are spaced -/

theorem Layout.Fits.bracketedIf {pieces : List Piece} (h : Fits pieces) (bracketed : Bool) :
    Fits (Expr.layout.bracketedIf bracketed pieces) := by
  unfold Expr.layout.bracketedIf
  split
  · intro rest hrest hsep
    have hleft : IsSpelling .leftBracket "(" := ⟨_, _, rfl, .leftBracket⟩
    have hright : IsSpelling .rightBracket ")" := ⟨_, _, rfl, .rightBracket⟩
    have hinner := h (.token .rightBracket ")" :: rest) ⟨hright, .inl rfl, hrest⟩
      (.cons rfl rest)
    simpa [Spaced, hleft, Token.Kind.delimited] using hinner
  · exact h

theorem Expr.fits_layout (e : Expr) (h : e.Readable) : Fits e.layout := by
  induction e with
  | binary m op lhs rhs ihl ihr =>
    intro rest hrest hsep
    have hrhs := (ihr h.2.2).bracketedIf rhs.isBinary rest hrest hsep
    have hgap : Spaced (.gap :: .token .operator op.spelling :: .gap ::
        (layout.bracketedIf rhs.isBinary rhs.layout ++ rest)) := by
      simpa [Spaced, Piece.separates] using ⟨h.1, hrhs⟩
    simpa [layout] using ihl h.2.1 _ hgap (.cons rfl _)
  | unary m op operand ih =>
    intro rest hrest hsep
    have hoperand := (ih h.2).bracketedIf operand.isBinary rest hrest hsep
    simpa [layout, Spaced, Piece.separates] using ⟨h.1, hoperand⟩
  | int m spelling => exact fun rest hrest hsep => ⟨h, .inr hsep, hrest⟩
  | char m value =>
    exact fun rest hrest hsep => ⟨⟨_, _, String.toList_ofList, .character value⟩, .inl rfl, hrest⟩
  | name m ident => exact fun rest hrest hsep => ⟨h, .inr hsep, hrest⟩
  | error m => exact absurd h id

theorem Param.fits_layout (p : Param) (h : p.Readable) : Fits p.layout := by
  cases p with
  | value m expr => exact expr.fits_layout h
  | reference m ident =>
    intro rest hrest hsep
    simpa [layout, Spaced, Piece.separates] using ⟨h, hsep, hrest⟩
  | blank m => exact fun rest hrest hsep => hrest
  | error m => exact absurd h id

theorem Decl.lined_layout (d : Decl) (h : d.Readable) (level : Nat) : Lined (d.layout level) := by
  induction d with
  | const m name value =>
    refine ⟨fun rest hrest hsep => ?_, fun rest => .cons rfl _⟩
    have hvalue := value.fits_layout h.2 rest hrest hsep
    have his : IsSpelling .is "~" := ⟨_, _, rfl, .is⟩
    simpa [layout, Spaced, Piece.separates, his, Token.Kind.delimited] using ⟨h.1, hvalue⟩
  | var m name type =>
    refine ⟨fun rest hrest hsep => ?_, fun rest => .cons rfl _⟩
    simpa [layout, Spaced, Piece.separates] using ⟨h.1, h.2, hsep, hrest⟩
  | seq m first second ihf ihs =>
    obtain ⟨hfirst, hsecond⟩ := h
    refine ⟨fun rest hrest hsep => ?_, fun rest => ?_⟩
    · have hrest' := (spaced_semicolon _).2 ((ihs hsecond).fits rest hrest hsep)
      simpa [layout] using (ihf hfirst).fits _ hrest' (.cons rfl _)
    · simpa [layout] using (ihf hfirst).separated (semicolon :: (second.layout level ++ rest))
  | error m => exact absurd h id

/-- Lines between two other parts, the second of which begins with a word on a line of its own. -/
theorem Layout.Lined.before_word {lines : List Piece} (h : Lined lines) (k : Keyword) (level : Nat)
    {rest : List Piece} (hsep : Separated rest) (hrest : Spaced rest) :
    Separated (lines ++ .line level :: word k :: rest) ∧
      Spaced (lines ++ .line level :: word k :: rest) :=
  ⟨h.separated _, h.fits _ ((spaced_word k rest).2 ⟨hsep, hrest⟩) (.cons rfl _)⟩

theorem Command.lined_layout (c : Command) (h : c.Readable) (followed : Bool) (level : Nat) :
    Lined (c.layout followed level) := by
  induction c generalizing followed level with
  | assign m target value =>
    refine ⟨fun rest hrest hsep => ?_, fun rest => .cons rfl _⟩
    have hvalue := value.fits_layout h.2 rest hrest hsep
    have hbecomes : IsSpelling .becomes "=" := ⟨_, _, rfl, .becomes⟩
    simpa [layout, Spaced, Piece.separates, hbecomes, Token.Kind.delimited] using ⟨h.1, hvalue⟩
  | call m callee param =>
    refine ⟨fun rest hrest hsep => ?_, fun rest => .cons rfl _⟩
    have hleft : IsSpelling .leftBracket "(" := ⟨_, _, rfl, .leftBracket⟩
    have hright : IsSpelling .rightBracket ")" := ⟨_, _, rfl, .rightBracket⟩
    have hparam := param.fits_layout h.2 (.token .rightBracket ")" :: rest)
      ⟨hright, .inl rfl, hrest⟩ (.cons rfl _)
    simpa [layout, Spaced, Piece.separates, hleft, Token.Kind.delimited] using ⟨h.1, hparam⟩
  | cond m c thenBranch elseBranch iht ihe =>
    obtain ⟨hc, hthen, helse⟩ := h
    rw [layout]
    refine Lined.enclosedIf (fun level => ⟨fun rest hrest hsep => ?_, fun rest => .cons rfl _⟩) _ _
    have helse := Lined.enclosedIf (ihe helse false) elseBranch.isSequence (level + 1)
    have hthen := (Lined.enclosedIf (iht hthen false) thenBranch.isSequence (level + 1)).before_word
      .elseKw level (helse.separated rest) (helse.fits rest hrest hsep)
    have hcond := c.fits_layout hc (.gap :: word .thenKw :: _) ((spaced_word _ _).2 hthen)
      (.cons rfl _)
    simpa [Spaced, Piece.separates] using hcond
  | whileDo m c body rest ihb ihr =>
    obtain ⟨hc, hbody, hrest⟩ := h
    rw [layout]
    refine Lined.enclosedIf (fun level => ⟨fun pieces hpieces hsep => ?_, fun _ => .cons rfl _⟩) _ _
    have hrest := ihr hrest false level
    have hbody := (ihb hbody false (level + 1)).before_word .wendKw level
      (hrest.separated pieces) (hrest.fits pieces hpieces hsep)
    have hcond := c.fits_layout hc (.gap :: word .doKw :: _) ((spaced_word _ _).2 hbody)
      (.cons rfl _)
    simpa [Spaced, Piece.separates] using hcond
  | doWhile m body c ih =>
    obtain ⟨hbody, hc⟩ := h
    refine ⟨fun rest hrest hsep => ?_, fun rest => .cons rfl _⟩
    have hbody := (Lined.enclosedIf (ih hbody false) body.isSequence (level + 1)).before_word
      .wendwhileKw level (.cons (p := .gap) rfl (c.layout ++ rest)) (c.fits_layout hc rest hrest hsep)
    simpa [layout, Spaced] using hbody
  | letIn m decl body rest ihb ihr =>
    obtain ⟨hdecl, hbody, hrest⟩ := h
    rw [layout]
    refine Lined.enclosedIf (fun level => ⟨fun pieces hpieces hsep => ?_, fun _ => .cons rfl _⟩) _ _
    have hrest := ihr hrest false level
    have hbody := (Lined.enclosedIf (ihb hbody false) body.isSequence (level + 1)).before_word
      .endletKw level (hrest.separated pieces) (hrest.fits pieces hpieces hsep)
    have hdecl := (decl.lined_layout hdecl (level + 1)).before_word .inKw level hbody.1 hbody.2
    simpa [Spaced] using hdecl
  | seq m first second ihf ihs =>
    obtain ⟨hfirst, hsecond⟩ := h
    have hfirst := ihf hfirst true level
    have hsecond := Lined.enclosedIf (ihs hsecond false)
      (second.isSequence || (followed && second.isOpenEnded)) level
    refine ⟨fun rest hrest hsep => ?_, fun rest => ?_⟩
    · have hrest' := (spaced_semicolon _).2 (hsecond.fits rest hrest hsep)
      simpa [layout] using hfirst.fits _ hrest' (.cons rfl _)
    · simpa [layout] using hfirst.separated _
  | blank m =>
    refine ⟨fun rest hrest hsep => ?_, fun rest => .cons rfl _⟩
    exact (spaced_word .passKw rest).2 ⟨hsep, hrest⟩
  | error m => exact absurd h id

end TriLang
