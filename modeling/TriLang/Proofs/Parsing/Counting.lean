import TriLang.Proofs.Parsing.Building

/-! # Reading with a counter of levels

Reading can also be told as a run that counts. A `Counted` state carries the number of single commands and
primary expressions that are being read at the moment, and the greatest number so far. The counter goes up
before a command or a primary is read and down again behind it (`Reading.nested`); where it stands at the limit
already, reading gives up instead. Such a run does not know how many levels are left. It is given fuel for its
calls and the rounds of its loops, which says nothing about levels; where the fuel is used up there is no result.

`Reading.Agrees` ties such a run to a reading function: with fuel enough it ends, in the same state and with the
same piece of tree, its counter is where it was, and on the way it stayed within the limit. There is one lemma for
each reading function. `parse_levels_bounded` says so of whole lists of tokens, together with the bound that the
tree gets from it. -/
namespace TriLang.Parser
set_option autoImplicit false

/-! ## Counting -/

/-- A state of reading together with the counter of levels. -/
structure Counted where
  state : State
  /-- How many levels deep reading is. -/
  depth : Nat
  /-- How many levels deep it has been at most. -/
  peak : Nat

/-- Reading with a counter. There is no result if the fuel is used up before the end. -/
abbrev Reading (α : Type) := StateT Counted Option α

namespace Reading

def look : Reading State := fun c => some (c.state, c)

/-- Reads something without looking at the counter. -/
def take {α : Type} (read : State → Parsed α) : Reading α := fun c =>
  some ((read c.state).node, { c with state := (read c.state).after })

def move (change : State → State) : Reading Unit := fun c =>
  some ((), { c with state := change c.state })

/-- Goes one level deeper, unless the counter stands at the limit. -/
def enter : Reading Bool := fun c =>
  if maxDepth ≤ c.depth then some (false, c)
  else some (true, { c with depth := c.depth + 1, peak := max c.peak (c.depth + 1) })

def leave : Reading Unit := fun c => some ((), { c with depth := c.depth - 1 })

/-- Reads one level deeper, or falls back where no level is left. -/
def nested {α : Type} (inner fallback : Reading α) : Reading α := do
  if ← enter then
    let node ← inner
    leave
    return node
  else fallback

/-- Goes on for as long as a condition holds of what is ahead. -/
def rounds {α : Type} (goesOn : State → Bool) (round : α → Reading α) : Nat → α → Reading α
  | 0, _ => failure
  | fuel + 1, a => do
    let s ← look
    if goesOn s then
      let next ← round a
      rounds goesOn round fuel next
    else return a

/-- Joins to what is there already what is read next, behind a separator. -/
def further {α : Type} (next : Reading α) (start : Nat) (build : Mark → α → α → α) (first : α) :
    Reading α := do
  move State.advance
  let second ← next
  take (·.finish start (build · first second))

/-! ## Expressions -/

/-- Joins an operator and an operand to what is there already. -/
def operation (operand : Reading Expr) (start : Nat) (lhs : Expr) : Reading Expr := do
  let op ← take State.readOperator
  let rhs ← operand
  take (·.finish start (.binary · op lhs rhs))

mutual

def primary : Nat → Reading Expr
  | 0 => failure
  | fuel + 1 => nested (primaryInner fuel) (take (·.giveUp .error))

def primaryInner : Nat → Reading Expr
  | 0 => failure
  | fuel + 1 => do
    let s ← look
    match s.kind with
    | .intLiteral => take fun s => s.advance.finish s.start (.int · s.current.spelling)
    | .charLiteral => take fun s => s.advance.finish s.start (.char · (literalChar s.current.spelling))
    | .identifier =>
      let ident ← take State.readIdent
      take (·.finish s.start (.name · ident))
    | .operator =>
      let op ← take State.readOperator
      let operand ← primary fuel
      take (·.finish s.start (.unary · op operand))
    | .leftBracket =>
      move State.advance
      let inner ← expression fuel
      move (·.expect .rightBracket)
      return inner
    | found =>
      move (·.report (.expected .expression found))
      take (·.finish s.start .error)

def expression : Nat → Reading Expr
  | 0 => failure
  | fuel + 1 => do
    let s ← look
    let first ← primary fuel
    rounds (·.kind = .operator) (operation (primary fuel) s.start) fuel first

end

def parameter (fuel : Nat) : Reading Param := do
  let s ← look
  if startsExpression s.kind then
    let value ← expression fuel
    take (·.finish s.start (.value · value))
  else if s.kind = .keyword .varKw then
    move State.advance
    match ← take (·.expectIdent .name) with
    | some ident => take (·.finish s.start (.reference · ident))
    | none => take (·.finish s.start .error)
  else take (·.finish s.start .blank)

/-! ## Declarations -/

def singleDeclaration (fuel : Nat) : Reading Decl := do
  let s ← look
  match s.kind with
  | .keyword .constKw =>
    move State.advance
    let name ← take (·.expectIdent .name)
    move (·.expect .is)
    let value ← expression fuel
    match name with
    | some ident => take (·.finish s.start (.const · ident value))
    | none => take (·.finish s.start .error)
  | .keyword .varKw =>
    move State.advance
    let name ← take (·.expectIdent .name)
    let type ← take typeDenoter
    match name, type with
    | some ident, some denoter => take (·.finish s.start (.var · ident denoter))
    | _, _ => take (·.finish s.start .error)
  | found =>
    move (·.report (.expected .declaration found))
    take (·.finish s.start .error)

def declaration (fuel : Nat) : Reading Decl := do
  let s ← look
  let first ← singleDeclaration fuel
  rounds (·.kind = .semicolon) (further (singleDeclaration fuel) s.start .seq) fuel first

/-! ## Commands -/

def namedCommand (fuel : Nat) : Reading Command := do
  let s ← look
  let name ← take State.readIdent
  match (← look).kind with
  | .leftBracket =>
    move State.advance
    let param ← parameter fuel
    move (·.expect .rightBracket)
    take (·.finish s.start (.call · name param))
  | .becomes =>
    move State.advance
    let value ← expression fuel
    take (·.finish s.start (.assign · name value))
  | found =>
    move (·.report (.afterName name.name found))
    take (·.finish s.start .error)

mutual

def single : Nat → Reading Command
  | 0 => failure
  | fuel + 1 => nested (singleInner fuel) (take (·.giveUp .error))

def singleInner : Nat → Reading Command
  | 0 => failure
  | fuel + 1 => do
    let s ← look
    match s.kind with
    | .identifier => namedCommand fuel
    | .keyword .beginKw =>
      move State.advance
      let inner ← command fuel
      move (·.expect (.keyword .endKw))
      return inner
    | .keyword .letKw =>
      move State.advance
      let decl ← declaration fuel
      move (·.expect (.keyword .inKw))
      let body ← single fuel
      move (·.expect (.keyword .endletKw))
      let rest ← command fuel
      take (·.finish s.start (.letIn · decl body rest))
    | .keyword .ifKw =>
      move State.advance
      let cond ← expression fuel
      move (·.expect (.keyword .thenKw))
      let thenBranch ← single fuel
      move (·.expect (.keyword .elseKw))
      let elseBranch ← single fuel
      take (·.finish s.start (.cond · cond thenBranch elseBranch))
    | .keyword .whileKw =>
      move State.advance
      let cond ← expression fuel
      move (·.expect (.keyword .doKw))
      let body ← command fuel
      move (·.expect (.keyword .wendKw))
      let rest ← command fuel
      take (·.finish s.start (.whileDo · cond body rest))
    | .keyword .doKw =>
      move State.advance
      let body ← single fuel
      move (·.expect (.keyword .wendwhileKw))
      let cond ← expression fuel
      take (·.finish s.start (.doWhile · body cond))
    | .keyword .passKw =>
      move State.advance
      take (·.finish s.start .blank)
    | _ => take (·.finish s.start .blank)

def command : Nat → Reading Command
  | 0 => failure
  | fuel + 1 => do
    let s ← look
    let first ← single fuel
    rounds (·.kind = .semicolon) (further (single fuel) s.start .seq) fuel first

end

/-- Reads a list of tokens as a program. The counter starts at 0. -/
def program (fuel : Nat) (tokens : List Token) : Option (ParseResult × Counted) := do
  let start := initial tokens
  let (command, c) ← command fuel ⟨start, 0, 0⟩
  let final :=
    if c.state.kind = .endOfText then c.state
    else c.state.report (.expected (.token .endOfText) c.state.kind)
  return (⟨⟨command, ⟨start.start, lastOffset tokens⟩⟩, final.errors⟩, { c with state := final })

/-! ## Agreement -/

/-- With fuel enough, a run from a counted state ends with what was read from the state. The counter is where it
was, and it has exceeded the limit at no time, if it had not done so before. -/
def Ends {α : Type} (run : Nat → Option (α × Counted)) (c : Counted) (p : Parsed α) : Prop :=
  Reads c.state p.after ∧ ∃ peak, peak ≤ max c.peak maxDepth ∧
    ∃ least, ∀ fuel, least ≤ fuel → run fuel = some (p.node, ⟨p.after, c.depth, peak⟩)

/-- Counting, one reads what the reading function does, given the levels that the counter leaves. -/
def Agrees {α : Type} (r : Nat → Reading α) (read : Nat → State → Parsed α) : Prop :=
  ∀ c : Counted, c.state.WellFormed → Ends (fun fuel => r fuel c) c (read (maxDepth - c.depth) c.state)

section
variable {α β : Type} {c : Counted} {q : Parsed β}

/-- A step of the recursion may be taken, since fuel is there for it. -/
theorem Ends.more {run : Nat → Option (β × Counted)} (h : Ends (fun fuel => run (fuel + 1)) c q) :
    Ends run c q := by
  obtain ⟨hreads, peak, hpeak, least, hrun⟩ := h
  refine ⟨hreads, peak, hpeak, least + 1, fun fuel hfuel => ?_⟩
  cases fuel with
  | zero => omega
  | succ fuel => exact hrun fuel (Nat.le_of_succ_le_succ hfuel)

theorem Ends.bind {r : Nat → Reading α} {next : Nat → α → Reading β} {p : Parsed α}
    (hs : c.state.WellFormed) (h : Ends (fun fuel => r fuel c) c p)
    (hnext : ∀ peak, p.after.WellFormed →
      Ends (fun fuel => next fuel p.node ⟨p.after, c.depth, peak⟩) ⟨p.after, c.depth, peak⟩ q) :
    Ends (fun fuel => (r fuel >>= next fuel) c) c q := by
  obtain ⟨hreads, peak, hpeak, least, hrun⟩ := h
  obtain ⟨hreads', peak', hpeak', least', hrun'⟩ := hnext peak (hreads.wellFormed hs)
  refine ⟨hreads.trans hreads', peak', ?_, max least least', fun fuel hfuel => ?_⟩
  · dsimp only at hpeak'
    omega
  · have hfirst : r fuel c = some (p.node, ⟨p.after, c.depth, peak⟩) := hrun fuel (by omega)
    calc (r fuel >>= next fuel) c
        = r fuel c >>= fun x => next fuel x.1 x.2 := rfl
      _ = next fuel p.node ⟨p.after, c.depth, peak⟩ := by rw [hfirst]; rfl
      _ = _ := hrun' fuel (by omega)

theorem ends_look {next : Nat → State → Reading β} (h : Ends (fun fuel => next fuel c.state c) c q) :
    Ends (fun fuel => (look >>= next fuel) c) c q := h

theorem ends_take {read : State → Parsed β} (h : Reads c.state (read c.state).after) :
    Ends (fun _ => take read c) c (read c.state) := ⟨h, c.peak, Nat.le_max_left _ _, 0, fun _ _ => rfl⟩

theorem ends_move {change : State → State} {next : Nat → Unit → Reading β} (hs : c.state.WellFormed)
    (hreads : Reads c.state (change c.state))
    (hnext : ∀ peak, (change c.state).WellFormed →
      Ends (fun fuel => next fuel () ⟨change c.state, c.depth, peak⟩) ⟨change c.state, c.depth, peak⟩ q) :
    Ends (fun fuel => (move change >>= next fuel) c) c q :=
  .bind (p := ⟨(), change c.state⟩) hs
    ⟨hreads, c.peak, Nat.le_max_left _ _, 0, fun _ _ => rfl⟩ hnext

theorem ends_finish (start : Nat) (build : Mark → β) :
    Ends (fun _ => take (·.finish start build) c) c (c.state.finish start build) :=
  ends_take (State.finish_reads _ _ _)

theorem ends_return (node : β) : Ends (fun _ => (return node : Reading β) c) c ⟨node, c.state⟩ :=
  ⟨.refl, c.peak, Nat.le_max_left _ _, 0, fun _ _ => rfl⟩

/-- Unless the counter stands at the limit, it is one higher for the inner run only. -/
theorem nested_apply (inner fallback : Reading β) (c : Counted) : nested inner fallback c =
    if maxDepth ≤ c.depth then fallback c
    else inner ⟨c.state, c.depth + 1, max c.peak (c.depth + 1)⟩ >>= fun x =>
      some (x.1, ⟨x.2.state, x.2.depth - 1, x.2.peak⟩) := by
  change (enter c >>= fun x =>
    (if x.1 then do let node ← inner; leave; return node else fallback) x.2) = _
  rw [enter]
  split <;> rfl

theorem ends_nested {inner : Nat → Reading β} {fallback : Reading β} (hlevel : c.depth < maxDepth)
    (h : ∀ peak, Ends (fun fuel => inner fuel ⟨c.state, c.depth + 1, peak⟩)
      ⟨c.state, c.depth + 1, peak⟩ q) :
    Ends (fun fuel => nested (inner fuel) fallback c) c q := by
  obtain ⟨hreads, peak, hpeak, least, hrun⟩ := h (max c.peak (c.depth + 1))
  refine ⟨hreads, peak, by dsimp only at hpeak; omega, least, fun fuel hfuel => ?_⟩
  have hinner : inner fuel ⟨c.state, c.depth + 1, max c.peak (c.depth + 1)⟩ =
      some (q.node, ⟨q.after, c.depth + 1, peak⟩) := hrun fuel hfuel
  dsimp only
  rw [nested_apply, if_neg (Nat.not_le_of_lt hlevel), hinner]
  rfl

theorem ends_nested_giveUp {inner : Nat → Reading β} (hlevel : maxDepth ≤ c.depth) (build : Mark → β) :
    Ends (fun fuel => nested (inner fuel) (take (·.giveUp build)) c) c (c.state.giveUp build) := by
  simp only [nested_apply, if_pos hlevel]
  exact ends_take (State.giveUp_reads _ _)

theorem Ends.later {run : Nat → Option (β × Counted)} (h : Ends run c q) (k : Nat) :
    Ends (fun fuel => run (fuel + k)) c q := by
  obtain ⟨hreads, peak, hpeak, least, hrun⟩ := h
  exact ⟨hreads, peak, hpeak, least, fun fuel hfuel => hrun _ (Nat.le_add_right_of_le hfuel)⟩

section
variable (l : Loop β) {round : Nat → β → Reading β} {depth : Nat}
  (hround : ∀ (b : β) (c : Counted), c.state.WellFormed → c.depth = depth →
    Ends (fun fuel => round fuel b c) c (l.round b c.state))
include hround

/-- Each round is given the same fuel, by now `k` more than there is for further rounds. -/
theorem ends_rounds_later (b : β) (hs : c.state.WellFormed) (hdepth : c.depth = depth) (k : Nat) :
    Ends (fun fuel => rounds l.goesOn (round (fuel + k)) fuel b c) c (l.exhaust b c.state) := by
  induction hsize : c.state.rest.length using Nat.strongRecOn generalizing c b k with
  | ind size ih =>
    refine .more ?_
    simp only [rounds]
    refine ends_look ?_
    cases hgo : l.goesOn c.state with
    | false =>
      rw [l.exhaust_of_stops hgo]
      exact ends_return b
    | true =>
      rw [l.exhaust_of_goesOn hs hgo]
      simp only [Nat.add_right_comm _ 1 k]
      refine .bind hs ((hround b c hs hdepth).later (k + 1)) fun peak hnext => ?_
      have hshrinks := l.shrinks b _ hs hgo
      exact ih _ (hsize ▸ hshrinks) (c := ⟨_, c.depth, peak⟩) _ hnext hdepth (k + 1) rfl

/-- A loop each round of which ends comes to its end, since less is left after each. -/
theorem ends_rounds (b : β) (hs : c.state.WellFormed) (hdepth : c.depth = depth) :
    Ends (fun fuel => rounds l.goesOn (round fuel) fuel b c) c (l.exhaust b c.state) :=
  ends_rounds_later l hround b hs hdepth 0

end

theorem ends_further {next : Nat → Reading β} {read : State → Parsed β} {depth : Nat}
    (h : ∀ c : Counted, c.state.WellFormed → c.depth = depth →
      Ends (fun fuel => next fuel c) c (read c.state))
    (start : Nat) (build : Mark → β → β → β) (first : β) (hs : c.state.WellFormed)
    (hdepth : c.depth = depth) :
    Ends (fun fuel => further (next fuel) start build first c) c
      ((read c.state.advance).after.finish start (build · first (read c.state.advance).node)) := by
  refine ends_move hs c.state.advance_reads fun peak hadvance => ?_
  refine .bind hadvance (h _ hadvance hdepth) fun peak _ => ?_
  exact ends_finish _ _

end

/-! ## Expressions agree -/

section
variable {levels : Nat} {c : Counted}
  (ih : ∀ c : Counted, c.state.WellFormed → maxDepth - c.depth = levels →
    Ends (fun fuel => primary fuel c) c (Parser.primary levels c.state))
include ih

theorem operation_ends (start : Nat) (lhs : Expr) (hs : c.state.WellFormed)
    (hlevels : maxDepth - c.depth = levels) : Ends (fun fuel => operation (primary fuel) start lhs c) c
      ((operators (Parser.primary levels) (primary_reads levels) start).round lhs c.state) := by
  refine .bind hs (ends_take (State.readOperator_reads _)) fun peak hop => ?_
  refine .bind hop (ih _ hop hlevels) fun peak _ => ?_
  exact ends_finish _ _

theorem expression_ends (hs : c.state.WellFormed) (hlevels : maxDepth - c.depth = levels) :
    Ends (fun fuel => expression fuel c) c (Parser.expression levels c.state) := by
  refine .more ?_
  simp only [expression]
  rw [Parser.expression, expressionOf_eq_exhaust (primary_reads levels)]
  refine ends_look (.bind hs (ih c hs hlevels) fun peak hfirst => ?_)
  exact ends_rounds (operators (Parser.primary levels) (primary_reads levels) c.state.start)
    (fun lhs c hs hdepth => operation_ends ih _ lhs hs (hdepth ▸ hlevels)) _ hfirst rfl

theorem primaryInner_ends (hs : c.state.WellFormed) (hlevels : maxDepth - c.depth = levels) :
    Ends (fun fuel => primaryInner fuel c) c (Parser.primary (levels + 1) c.state) := by
  refine .more ?_
  simp only [primaryInner]
  rw [Parser.primary]
  refine ends_look ?_
  cases hk : c.state.kind with
  | intLiteral => exact ends_take (c.state.advance_reads.trans (State.finish_reads _ _ _))
  | charLiteral => exact ends_take (c.state.advance_reads.trans (State.finish_reads _ _ _))
  | identifier =>
    refine .bind hs (ends_take (State.readIdent_reads _)) fun peak hident => ?_
    exact ends_finish _ _
  | operator =>
    refine .bind hs (ends_take (State.readOperator_reads _)) fun peak hop => ?_
    refine .bind hop (ih _ hop hlevels) fun peak hoperand => ?_
    exact ends_finish _ _
  | leftBracket =>
    refine ends_move hs c.state.advance_reads fun peak hadvance => ?_
    refine .bind hadvance (expression_ends ih hadvance hlevels) fun peak hinner => ?_
    refine ends_move hinner (State.expect_reads _ _) fun peak _ => ?_
    exact ends_return _
  | _ =>
    refine ends_move hs (State.report_reads _ _ (by simp)) fun peak hreport => ?_
    exact ends_finish _ _

end

theorem primary_ends (levels : Nat) (c : Counted) (hs : c.state.WellFormed)
    (hlevels : maxDepth - c.depth = levels) :
    Ends (fun fuel => primary fuel c) c (Parser.primary levels c.state) := by
  induction levels generalizing c with
  | zero =>
    refine .more ?_
    simp only [primary]
    exact ends_nested_giveUp (by omega) _
  | succ levels ih =>
    refine .more ?_
    simp only [primary]
    refine ends_nested (by omega) fun peak => ?_
    exact primaryInner_ends ih hs (by dsimp only; omega)

theorem agrees_primary : Agrees primary Parser.primary := fun c hs => primary_ends _ c hs rfl

theorem agrees_expression : Agrees expression Parser.expression :=
  fun _ hs => expression_ends (primary_ends _) hs rfl

theorem agrees_parameter : Agrees parameter Parser.parameter := by
  intro c hs
  unfold parameter Parser.parameter
  refine ends_look ?_
  split
  · refine .bind hs (agrees_expression c hs) fun peak hvalue => ?_
    exact ends_finish _ _
  · split
    · refine ends_move hs c.state.advance_reads fun peak hadvance => ?_
      refine .bind hadvance (ends_take (State.expectIdent_reads _ .name)) fun peak hname => ?_
      dsimp only
      cases (c.state.advance.expectIdent .name).node with
      | some ident => exact ends_finish _ _
      | none => exact ends_finish _ _
    · exact ends_finish _ _

/-! ## Declarations agree -/

theorem agrees_singleDeclaration : Agrees singleDeclaration Parser.singleDeclaration := by
  intro c hs
  have hother : ∀ found : Token.Kind,
      Ends (fun _ => (do
          move (·.report (.expected .declaration found))
          take (·.finish c.state.start Decl.error) : Reading Decl) c)
        c ((c.state.report (.expected .declaration found)).finish c.state.start Decl.error) := by
    intro found
    refine ends_move hs (State.report_reads _ _ (by simp)) fun peak _ => ?_
    exact ends_finish _ _
  unfold singleDeclaration Parser.singleDeclaration
  refine ends_look ?_
  cases hk : c.state.kind with
  | keyword k =>
    cases k with
    | constKw =>
      refine ends_move hs c.state.advance_reads fun peak hadvance => ?_
      refine .bind hadvance (ends_take (State.expectIdent_reads _ .name)) fun peak hname => ?_
      refine ends_move hname (State.expect_reads _ .is) fun peak his => ?_
      refine .bind his (agrees_expression _ his) fun peak hvalue => ?_
      dsimp only
      cases (c.state.advance.expectIdent .name).node with
      | some ident => exact ends_finish _ _
      | none => exact ends_finish _ _
    | varKw =>
      refine ends_move hs c.state.advance_reads fun peak hadvance => ?_
      refine .bind hadvance (ends_take (State.expectIdent_reads _ .name)) fun peak hname => ?_
      refine .bind hname (ends_take (typeDenoter_reads _)) fun peak htype => ?_
      dsimp only
      cases (c.state.advance.expectIdent .name).node with
      | none => exact ends_finish _ _
      | some ident =>
        cases (typeDenoter (c.state.advance.expectIdent .name).after).node with
        | none => exact ends_finish _ _
        | some denoter => exact ends_finish _ _
    | _ => exact hother _
  | _ => exact hother _

theorem agrees_declaration : Agrees declaration Parser.declaration := by
  intro c hs
  unfold declaration
  rw [declaration_eq_exhaust]
  refine ends_look (.bind hs (agrees_singleDeclaration c hs) fun peak hfirst => ?_)
  exact ends_rounds (declarations (maxDepth - c.depth) c.state.start)
    (fun first c hs hdepth => ends_further (fun c hs hdepth => hdepth ▸ agrees_singleDeclaration c hs)
      _ _ first hs hdepth) _ hfirst rfl

/-! ## Commands agree -/

theorem agrees_namedCommand : Agrees namedCommand Parser.namedCommand := by
  intro c hs
  unfold namedCommand Parser.namedCommand
  refine ends_look (.bind hs (ends_take (State.readIdent_reads _)) fun peak hname => ends_look ?_)
  dsimp only
  cases hk : c.state.readIdent.after.kind with
  | leftBracket =>
    refine ends_move hname (State.advance_reads _) fun peak hadvance => ?_
    refine .bind hadvance (agrees_parameter _ hadvance) fun peak hparam => ?_
    refine ends_move hparam (State.expect_reads _ .rightBracket) fun peak _ => ?_
    exact ends_finish _ _
  | becomes =>
    refine ends_move hname (State.advance_reads _) fun peak hadvance => ?_
    refine .bind hadvance (agrees_expression _ hadvance) fun peak hvalue => ?_
    exact ends_finish _ _
  | _ =>
    refine ends_move hname (State.report_reads _ _ (by simp)) fun peak _ => ?_
    exact ends_finish _ _

section
variable {levels : Nat} {c : Counted}
  (ih : ∀ c : Counted, c.state.WellFormed → maxDepth - c.depth = levels →
    Ends (fun fuel => single fuel c) c (Parser.single levels c.state))
include ih

theorem command_ends (hs : c.state.WellFormed) (hlevels : maxDepth - c.depth = levels) :
    Ends (fun fuel => command fuel c) c (Parser.command levels c.state) := by
  refine .more ?_
  simp only [command]
  rw [Parser.command, commandOf_eq_exhaust (single_reads levels)]
  refine ends_look (.bind hs (ih c hs hlevels) fun peak hfirst => ?_)
  exact ends_rounds (commands (Parser.single levels) (single_reads levels) c.state.start)
    (fun first c hs hdepth => ends_further (fun c hs hdepth => ih c hs (hdepth ▸ hlevels))
      _ _ first hs hdepth) _ hfirst rfl

theorem singleInner_ends (hs : c.state.WellFormed) (hlevels : maxDepth - c.depth = levels) :
    Ends (fun fuel => singleInner fuel c) c (Parser.single (levels + 1) c.state) := by
  have hexpression : ∀ c : Counted, c.state.WellFormed → maxDepth - c.depth = levels →
      Ends (fun fuel => expression fuel c) c (Parser.expression levels c.state) :=
    fun c hs hlevels => hlevels ▸ agrees_expression c hs
  have hdeclaration : ∀ c : Counted, c.state.WellFormed → maxDepth - c.depth = levels →
      Ends (fun fuel => declaration fuel c) c (Parser.declaration levels c.state) :=
    fun c hs hlevels => hlevels ▸ agrees_declaration c hs
  have hcommand : ∀ c : Counted, c.state.WellFormed → maxDepth - c.depth = levels →
      Ends (fun fuel => command fuel c) c (Parser.command levels c.state) :=
    fun c hs hlevels => command_ends ih hs hlevels
  refine .more ?_
  simp only [singleInner]
  rw [Parser.single]
  refine ends_look ?_
  cases hk : c.state.kind with
  | identifier => exact hlevels ▸ agrees_namedCommand c hs
  | keyword k =>
    cases k with
    | beginKw =>
      refine ends_move hs c.state.advance_reads fun peak hadvance => ?_
      refine .bind hadvance (hcommand _ hadvance hlevels) fun peak hinner => ?_
      refine ends_move hinner (State.expect_reads _ (.keyword .endKw)) fun peak _ => ?_
      exact ends_return _
    | letKw =>
      refine ends_move hs c.state.advance_reads fun peak hadvance => ?_
      refine .bind hadvance (hdeclaration _ hadvance hlevels) fun peak hdecl => ?_
      refine ends_move hdecl (State.expect_reads _ (.keyword .inKw)) fun peak hin => ?_
      refine .bind hin (ih _ hin hlevels) fun peak hbody => ?_
      refine ends_move hbody (State.expect_reads _ (.keyword .endletKw)) fun peak hendlet => ?_
      refine .bind hendlet (hcommand _ hendlet hlevels) fun peak hrest => ?_
      exact ends_finish _ _
    | ifKw =>
      refine ends_move hs c.state.advance_reads fun peak hadvance => ?_
      refine .bind hadvance (hexpression _ hadvance hlevels) fun peak hcond => ?_
      refine ends_move hcond (State.expect_reads _ (.keyword .thenKw)) fun peak hthen => ?_
      refine .bind hthen (ih _ hthen hlevels) fun peak hbranch => ?_
      refine ends_move hbranch (State.expect_reads _ (.keyword .elseKw)) fun peak helse => ?_
      refine .bind helse (ih _ helse hlevels) fun peak hbranch => ?_
      exact ends_finish _ _
    | whileKw =>
      refine ends_move hs c.state.advance_reads fun peak hadvance => ?_
      refine .bind hadvance (hexpression _ hadvance hlevels) fun peak hcond => ?_
      refine ends_move hcond (State.expect_reads _ (.keyword .doKw)) fun peak hdo => ?_
      refine .bind hdo (hcommand _ hdo hlevels) fun peak hbody => ?_
      refine ends_move hbody (State.expect_reads _ (.keyword .wendKw)) fun peak hwend => ?_
      refine .bind hwend (hcommand _ hwend hlevels) fun peak hrest => ?_
      exact ends_finish _ _
    | doKw =>
      refine ends_move hs c.state.advance_reads fun peak hadvance => ?_
      refine .bind hadvance (ih _ hadvance hlevels) fun peak hbody => ?_
      refine ends_move hbody (State.expect_reads _ (.keyword .wendwhileKw)) fun peak hwendwhile => ?_
      refine .bind hwendwhile (hexpression _ hwendwhile hlevels) fun peak hcond => ?_
      exact ends_finish _ _
    | passKw =>
      refine ends_move hs c.state.advance_reads fun peak _ => ?_
      exact ends_finish _ _
    | _ => exact ends_finish _ _
  | _ => exact ends_finish _ _

end

theorem single_ends (levels : Nat) (c : Counted) (hs : c.state.WellFormed)
    (hlevels : maxDepth - c.depth = levels) :
    Ends (fun fuel => single fuel c) c (Parser.single levels c.state) := by
  induction levels generalizing c with
  | zero =>
    refine .more ?_
    simp only [single]
    exact ends_nested_giveUp (by omega) _
  | succ levels ih =>
    refine .more ?_
    simp only [single]
    refine ends_nested (by omega) fun peak => ?_
    exact singleInner_ends ih hs (by dsimp only; omega)

theorem agrees_single : Agrees single Parser.single := fun c hs => single_ends _ c hs rfl

theorem agrees_command : Agrees command Parser.command :=
  fun _ hs => command_ends (single_ends _) hs rfl

/-- Counting from 0, a list of tokens is read as the program that it is. -/
theorem program_eq (tokens : List Token) : ∃ c : Counted,
    (∃ least, ∀ fuel, least ≤ fuel → program fuel tokens = some (parse tokens, c)) ∧ c.depth = 0 ∧
      c.peak ≤ maxDepth := by
  obtain ⟨-, peak, hpeak, least, hrun⟩ :=
    agrees_command ⟨initial tokens, 0, 0⟩ (initial_wellFormed tokens)
  refine ⟨⟨final tokens, 0, peak⟩, ⟨least, fun fuel hfuel => ?_⟩, rfl, by simpa using hpeak⟩
  have hcommand := hrun fuel hfuel
  dsimp only at hcommand
  rw [program, hcommand]
  rfl

end Reading

end TriLang.Parser

namespace TriLang
open TriLang.Parser
set_option autoImplicit false

/-- On no way from the root of a tree down to a leaf are there more commands and expressions than the limit,
counting neither sequences nor binary expressions, which are read in rounds, nor what stands in for a part that
could not be read. This is so for every list of tokens. The counter of levels is at 0 again when the list has
been read, and whatever function reads from whatever state, with fuel enough it comes to its end, the counter is
then where it was before, and it has never exceeded the limit. -/
theorem parse_levels_bounded (tokens : List Token) :
    (∀ path, (Node.command (parse tokens).program.command).Path path →
      Node.levels path ≤ maxDepth) ∧
    (∃ c : Counted,
      (∃ least, ∀ fuel, least ≤ fuel → Reading.program fuel tokens = some (parse tokens, c)) ∧
      c.depth = 0 ∧ c.peak ≤ maxDepth) ∧
    Reading.Agrees Reading.command command ∧ Reading.Agrees Reading.single single ∧
    Reading.Agrees Reading.singleInner (fun levels => single (levels + 1)) ∧
    Reading.Agrees Reading.namedCommand namedCommand ∧ Reading.Agrees Reading.parameter parameter ∧
    Reading.Agrees Reading.declaration declaration ∧
    Reading.Agrees Reading.singleDeclaration singleDeclaration ∧
    Reading.Agrees (fun _ => Reading.take typeDenoter) (fun _ => typeDenoter) ∧
    Reading.Agrees Reading.expression expression ∧ Reading.Agrees Reading.primary primary ∧
    Reading.Agrees Reading.primaryInner (fun levels => primary (levels + 1)) := by
  refine ⟨fun path hpath => ?_, Reading.program_eq tokens, Reading.agrees_command,
    Reading.agrees_single, fun c hs => Reading.singleInner_ends (Reading.single_ends _) hs rfl,
    Reading.agrees_namedCommand, Reading.agrees_parameter, Reading.agrees_declaration,
    Reading.agrees_singleDeclaration, fun c _ => Reading.ends_take (typeDenoter_reads _),
    Reading.agrees_expression, Reading.agrees_primary,
    fun c hs => Reading.primaryInner_ends (Reading.primary_ends _) hs rfl⟩
  exact ((parse_builds tokens).within _ (List.mem_singleton_self _)).levels_le hpath

/-- The way down to the name in `x = \\b`, on which there are a command and two expressions. -/
theorem parse_levels_bounded_unary :
    let tokens := (tokenize "x = \\b".toList).tokens
    let path : List Node := [.command (parse tokens).program.command,
      .expr (.unary ⟨4, ⟨4, 6⟩⟩ ⟨⟨1, ⟨4, 5⟩⟩, "\\"⟩ (.name ⟨3, ⟨5, 6⟩⟩ ⟨⟨2, ⟨5, 6⟩⟩, "b"⟩)),
      .expr (.name ⟨3, ⟨5, 6⟩⟩ ⟨⟨2, ⟨5, 6⟩⟩, "b"⟩), .ident ⟨⟨2, ⟨5, 6⟩⟩, "b"⟩]
    (Node.command (parse tokens).program.command).Path path ∧ path.map Node.level = [1, 1, 1, 0] ∧
      Node.levels path ≤ maxDepth := by
  intro tokens path
  have htree : (parse tokens).program.command = .assign ⟨5, ⟨0, 6⟩⟩ ⟨⟨0, ⟨0, 1⟩⟩, "x"⟩
      (.unary ⟨4, ⟨4, 6⟩⟩ ⟨⟨1, ⟨4, 5⟩⟩, "\\"⟩ (.name ⟨3, ⟨5, 6⟩⟩ ⟨⟨2, ⟨5, 6⟩⟩, "b"⟩)) := by
    decide +kernel
  have hpath : (Node.command (parse tokens).program.command).Path path := by
    refine .child ?_ (.child ?_ (.child ?_ (.leaf rfl)))
    · rw [htree]
      exact .tail _ (.head _)
    · exact .tail _ (.head _)
    · exact .head _
  refine ⟨hpath, ?_, (parse_levels_bounded tokens).1 path hpath⟩
  change [Node.level (.command (parse tokens).program.command), 1, 1, 0] = _
  rw [htree]
  rfl

end TriLang
