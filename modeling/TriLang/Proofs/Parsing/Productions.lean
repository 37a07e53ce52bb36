import TriLang.Proofs.Parsing.Input

/-! # Reading along a production

`D.ReadAs s p` says that what was read from the state `s` with the result `p` is what the derivation `D`
has: its word was taken, and its tree was built, its nodes numbered from the next number on. There is one
lemma for each rule of the grammar: if the parts are read as their derivations have them, the whole is
read as the rule has it. -/
namespace TriLang
open TriLang.Parser
set_option autoImplicit false

/-- The expression was read as the derivation has it. -/
structure ExprDerivation.ReadAs {x : Extent} (D : ExprDerivation x) (s : State)
    (p : Parsed Expr) : Prop where
  took : Took s p.after D.yield D.tree.nodes
  node : p.node.mapMarks .unspanned = D.tree.numbered s.nextId

structure ParamDerivation.ReadAs (D : ParamDerivation) (s : State) (p : Parsed Param) : Prop where
  took : Took s p.after D.yield D.tree.nodes
  node : p.node.mapMarks .unspanned = D.tree.numbered s.nextId

structure DeclDerivation.ReadAs {x : Extent} (D : DeclDerivation x) (s : State)
    (p : Parsed Decl) : Prop where
  took : Took s p.after D.yield D.tree.nodes
  node : p.node.mapMarks .unspanned = D.tree.numbered s.nextId

structure CommandDerivation.ReadAs {x : Extent} (D : CommandDerivation x) (s : State)
    (p : Parsed Command) : Prop where
  took : Took s p.after D.yield D.tree.nodes
  node : p.node.mapMarks .unspanned = D.tree.numbered s.nextId

theorem Parser.Took.cast {s t : State} {v w : List Terminal} {m n : Nat} (h : Took s t v m)
    (hw : v = w) (hn : m = n) : Took s t w n := hw ▸ hn ▸ h

section
variable {s t : State} (start : Nat)

/-! ## Expressions -/

namespace ExprDerivation

theorem readAs_int (hs : s.WellFormed) (hk : s.kind = .intLiteral) :
    (int s.current.spelling).ReadAs s (s.advance.finish start (.int · s.current.spelling)) := by
  have hadvance := hs.took_advance (by rw [hk]; decide)
  have ht : Terminal.ofToken s.current = .int s.current.spelling := by
    unfold State.kind at hk; simp only [Terminal.ofToken, Terminal.ofSpelling, hk]
  rw [ht] at hadvance
  refine ⟨hadvance.finish _ _, ?_⟩
  simp [State.finish, State.finishAt, tree, Expr.numbered, Mark.unspanned, Mark.numbered,
    State.advance_nextId]

theorem readAs_char (hs : s.WellFormed) (hk : s.kind = .charLiteral) :
    (char (literalChar s.current.spelling)).ReadAs s
      (s.advance.finish start (.char · (literalChar s.current.spelling))) := by
  have hadvance := hs.took_advance (by rw [hk]; decide)
  have ht : Terminal.ofToken s.current = .char (literalChar s.current.spelling) := by
    unfold State.kind at hk; simp only [Terminal.ofToken, Terminal.ofSpelling, hk]
  rw [ht] at hadvance
  refine ⟨hadvance.finish _ _, ?_⟩
  simp [State.finish, State.finishAt, tree, Expr.numbered, Mark.unspanned, Mark.numbered,
    State.advance_nextId]

theorem readAs_name (hs : s.WellFormed) (hk : s.kind = .identifier) :
    (name s.current.spelling).ReadAs s
      (s.readIdent.after.finish start (.name · s.readIdent.node)) := by
  have hident := hs.took_readIdent hk
  refine ⟨hident.finish _ _, ?_⟩
  simp [State.finish, State.finishAt, tree, Expr.numbered, Mark.unspanned, Mark.numbered,
    Ident.numbered, State.readIdent_node, hident.nextId]

theorem readAs_unary {D : ExprDerivation .item} {p : Parsed Expr} (hs : s.WellFormed)
    (hk : s.kind = .operator) (h : D.ReadAs s.readOperator.after p) :
    (unary s.current.spelling D).ReadAs s
      (p.after.finish start (.unary · s.readOperator.node p.node)) := by
  have hop := hs.took_readOperator hk
  refine ⟨(hop.trans h.took).finish _ _, ?_⟩
  simp [State.finish, State.finishAt, tree, Expr.numbered, Mark.unspanned, Mark.numbered,
    Operator.numbered, State.readOperator_node, h.node, h.took.nextId, hop.nextId]

theorem readAs_brackets {D : ExprDerivation .chain} {p : Parsed Expr} {u : State}
    (hopen : Took s t [.fixed .leftBracket] 0) (h : D.ReadAs t p)
    (hclose : Took p.after u [.fixed .rightBracket] 0) : (brackets D).ReadAs s ⟨p.node, u⟩ := by
  refine ⟨((hopen.trans h.took).trans hclose).cast (by simp [yield]) (by simp [tree]), ?_⟩
  rw [h.node, hopen.nextId]
  rfl

theorem ReadAs.single {D : ExprDerivation .item} {p : Parsed Expr} (h : D.ReadAs s p) :
    (single D).ReadAs s p := ⟨h.took, h.node⟩

theorem readAs_binary {D : ExprDerivation .chain} {E : ExprDerivation .item} {lhs : Expr}
    {p : Parsed Expr} (h : D.ReadAs s ⟨lhs, t⟩) (ht : t.WellFormed) (hk : t.kind = .operator)
    (h' : E.ReadAs t.readOperator.after p) :
    (binary D t.current.spelling E).ReadAs s
      (p.after.finish start (.binary · t.readOperator.node lhs p.node)) := by
  have hop := ht.took_readOperator hk
  refine ⟨(((h.took.trans hop).trans h'.took).finish _ _).cast ?_ ?_, ?_⟩
  · simp [yield]
  · rfl
  · have hnode := h.node
    have hnext := h.took.nextId
    dsimp only at hnode hnext
    simp [State.finish, State.finishAt, tree, Expr.numbered, Mark.unspanned, Mark.numbered,
      Operator.numbered, State.readOperator_node, hnode, h'.node, h'.took.nextId, hop.nextId, hnext]

end ExprDerivation

/-! ## Parameters and declarations -/

namespace ParamDerivation

theorem readAs_value {D : ExprDerivation .chain} {p : Parsed Expr} (h : D.ReadAs s p) :
    (value D).ReadAs s (p.after.finish start (.value · p.node)) := by
  refine ⟨h.took.finish _ _, ?_⟩
  simp [State.finish, State.finishAt, tree, Param.mapMarks, Param.numbered, Mark.unspanned,
    Mark.numbered, h.node, h.took.nextId]

theorem readAs_reference (hvar : Took s t [.word .varKw] 0) (ht : t.WellFormed)
    (hk : t.kind = .identifier) :
    (reference t.current.spelling).ReadAs s
      (t.readIdent.after.finish start (.reference · t.readIdent.node)) := by
  have hident := ht.took_readIdent hk
  refine ⟨(hvar.trans hident).finish _ _, ?_⟩
  simp [State.finish, State.finishAt, tree, Param.mapMarks, Param.numbered, Mark.unspanned,
    Mark.numbered, Ident.numbered, State.readIdent_node, hident.nextId, hvar.nextId]

theorem readAs_empty : empty.ReadAs s (s.finish start .blank) :=
  ⟨⟨rfl, rfl⟩, rfl⟩

end ParamDerivation

namespace DeclDerivation

theorem readAs_const {D : ExprDerivation .chain} {u : State} {p : Parsed Expr}
    (hconst : Took s t [.word .constKw] 0) (ht : t.WellFormed) (hk : t.kind = .identifier)
    (his : Took t.readIdent.after u [.fixed .is] 0) (h : D.ReadAs u p) :
    (const t.current.spelling D).ReadAs s
      (p.after.finish start (.const · t.readIdent.node p.node)) := by
  have hident := ht.took_readIdent hk
  refine ⟨((((hconst.trans hident).trans his).trans h.took).finish _ _).cast ?_ ?_, ?_⟩
  · simp [yield]
  · simp [tree, Decl.nodes]
  · simp [State.finish, State.finishAt, tree, Decl.numbered, Mark.unspanned, Mark.numbered,
      Ident.numbered, State.readIdent_node, h.node, h.took.nextId, his.nextId, hident.nextId,
      hconst.nextId]

theorem readAs_var (span : Span) (hvar : Took s t [.word .varKw] 0) (ht : t.WellFormed)
    (hk : t.kind = .identifier) (hk' : t.readIdent.after.kind = .identifier) :
    (var t.current.spelling t.readIdent.after.current.spelling).ReadAs s
      (((t.readIdent.after.readIdent.after.finishAt span fun m =>
        ({ m with name := t.readIdent.after.readIdent.node } : TypeDenoter)).after).finish start
          (.var · t.readIdent.node
            (t.readIdent.after.readIdent.after.finishAt span fun m =>
              ({ m with name := t.readIdent.after.readIdent.node } : TypeDenoter)).node)) := by
  have hident := ht.took_readIdent hk
  have htype := (t.readIdent_reads.wellFormed ht).took_readIdent hk'
  refine ⟨(((hvar.trans (hident.trans htype)).finishAt _ _).finish _ _).cast rfl rfl, ?_⟩
  simp [State.finish, State.finishAt, tree, Decl.numbered, TypeDenoter.numbered,
    TypeDenoter.mapMarks, Mark.unspanned, Mark.numbered, Ident.numbered, State.readIdent_node,
    htype.nextId, hident.nextId, hvar.nextId]

theorem ReadAs.single {D : DeclDerivation .item} {p : Parsed Decl} (h : D.ReadAs s p) :
    (single D).ReadAs s p := ⟨h.took, h.node⟩

theorem readAs_seq {D : DeclDerivation .chain} {E : DeclDerivation .item} {first : Decl} {u : State}
    {p : Parsed Decl} (h : D.ReadAs s ⟨first, t⟩) (hsemi : Took t u [.fixed .semicolon] 0)
    (h' : E.ReadAs u p) :
    (seq D E).ReadAs s (p.after.finish start (.seq · first p.node)) := by
  refine ⟨(((h.took.trans hsemi).trans h'.took).finish _ _).cast ?_ ?_, ?_⟩
  · simp [yield]
  · rfl
  · have hnode := h.node
    have hnext := h.took.nextId
    dsimp only at hnode hnext
    simp [State.finish, State.finishAt, tree, Decl.numbered, Mark.unspanned, Mark.numbered, hnode,
      h'.node, h'.took.nextId, hsemi.nextId, hnext]

end DeclDerivation

/-! ## Commands -/

namespace CommandDerivation

theorem readAs_call {D : ParamDerivation} {u v : State} {p : Parsed Param} (hs : s.WellFormed)
    (hk : s.kind = .identifier) (hopen : Took s.readIdent.after u [.fixed .leftBracket] 0)
    (h : D.ReadAs u p) (hclose : Took p.after v [.fixed .rightBracket] 0) :
    (call s.current.spelling D).ReadAs s (v.finish start (.call · s.readIdent.node p.node)) := by
  have hident := hs.took_readIdent hk
  refine ⟨((((hident.trans hopen).trans h.took).trans hclose).finish _ _).cast ?_ ?_, ?_⟩
  · simp [yield]
  · rfl
  · simp [State.finish, State.finishAt, tree, Command.numbered, Mark.unspanned, Mark.numbered,
      Ident.numbered, State.readIdent_node, h.node, hclose.nextId, h.took.nextId, hopen.nextId,
      hident.nextId]

theorem readAs_assign {D : ExprDerivation .chain} {u : State} {p : Parsed Expr} (hs : s.WellFormed)
    (hk : s.kind = .identifier) (hbecomes : Took s.readIdent.after u [.fixed .becomes] 0)
    (h : D.ReadAs u p) :
    (assign s.current.spelling D).ReadAs s
      (p.after.finish start (.assign · s.readIdent.node p.node)) := by
  have hident := hs.took_readIdent hk
  refine ⟨(((hident.trans hbecomes).trans h.took).finish _ _).cast ?_ ?_, ?_⟩
  · simp [yield]
  · rfl
  · simp [State.finish, State.finishAt, tree, Command.numbered, Mark.unspanned, Mark.numbered,
      Ident.numbered, State.readIdent_node, h.node, h.took.nextId, hbecomes.nextId, hident.nextId]

theorem readAs_block {D : CommandDerivation .chain} {p : Parsed Command} {u : State}
    (hbegin : Took s t [.word .beginKw] 0) (h : D.ReadAs t p)
    (hend : Took p.after u [.word .endKw] 0) : (block D).ReadAs s ⟨p.node, u⟩ := by
  refine ⟨((hbegin.trans h.took).trans hend).cast (by simp [yield]) (by simp [tree]), ?_⟩
  rw [h.node, hbegin.nextId]
  rfl

theorem readAs_letIn {D : DeclDerivation .chain} {B : CommandDerivation .item}
    {R : CommandDerivation .chain} {u v : State} {d : Parsed Decl} {b r : Parsed Command}
    (hlet : Took s t [.word .letKw] 0) (hd : D.ReadAs t d)
    (hin : Took d.after u [.word .inKw] 0) (hb : B.ReadAs u b)
    (hendlet : Took b.after v [.word .endletKw] 0) (hr : R.ReadAs v r) :
    (letIn D B R).ReadAs s (r.after.finish start (.letIn · d.node b.node r.node)) := by
  refine ⟨((((((hlet.trans hd.took).trans hin).trans hb.took).trans hendlet).trans
    hr.took).finish _ _).cast ?_ ?_, ?_⟩
  · simp [yield]
  · simp [tree, Command.nodes]
  · simp [State.finish, State.finishAt, tree, Command.numbered, Mark.unspanned, Mark.numbered,
      hd.node, hb.node, hr.node, hr.took.nextId, hendlet.nextId, hb.took.nextId, hin.nextId,
      hd.took.nextId, hlet.nextId]

theorem readAs_cond {C : ExprDerivation .chain} {T E : CommandDerivation .item} {u v : State}
    {c : Parsed Expr} {a b : Parsed Command}
    (hif : Took s t [.word .ifKw] 0) (hc : C.ReadAs t c)
    (hthen : Took c.after u [.word .thenKw] 0) (ha : T.ReadAs u a)
    (helse : Took a.after v [.word .elseKw] 0) (hb : E.ReadAs v b) :
    (cond C T E).ReadAs s (b.after.finish start (.cond · c.node a.node b.node)) := by
  refine ⟨((((((hif.trans hc.took).trans hthen).trans ha.took).trans helse).trans
    hb.took).finish _ _).cast ?_ ?_, ?_⟩
  · simp [yield]
  · simp [tree, Command.nodes]
  · simp [State.finish, State.finishAt, tree, Command.numbered, Mark.unspanned, Mark.numbered,
      hc.node, ha.node, hb.node, hb.took.nextId, helse.nextId, ha.took.nextId, hthen.nextId,
      hc.took.nextId, hif.nextId]

theorem readAs_whileDo {C : ExprDerivation .chain} {B R : CommandDerivation .chain} {u v : State}
    {c : Parsed Expr} {b r : Parsed Command}
    (hwhile : Took s t [.word .whileKw] 0) (hc : C.ReadAs t c)
    (hdo : Took c.after u [.word .doKw] 0) (hb : B.ReadAs u b)
    (hwend : Took b.after v [.word .wendKw] 0) (hr : R.ReadAs v r) :
    (whileDo C B R).ReadAs s (r.after.finish start (.whileDo · c.node b.node r.node)) := by
  refine ⟨((((((hwhile.trans hc.took).trans hdo).trans hb.took).trans hwend).trans
    hr.took).finish _ _).cast ?_ ?_, ?_⟩
  · simp [yield]
  · simp [tree, Command.nodes]
  · simp [State.finish, State.finishAt, tree, Command.numbered, Mark.unspanned, Mark.numbered,
      hc.node, hb.node, hr.node, hr.took.nextId, hwend.nextId, hb.took.nextId, hdo.nextId,
      hc.took.nextId, hwhile.nextId]

theorem readAs_doWhile {B : CommandDerivation .item} {C : ExprDerivation .chain} {u : State}
    {b : Parsed Command} {c : Parsed Expr} (hdo : Took s t [.word .doKw] 0) (hb : B.ReadAs t b)
    (hwendwhile : Took b.after u [.word .wendwhileKw] 0) (hc : C.ReadAs u c) :
    (doWhile B C).ReadAs s (c.after.finish start (.doWhile · b.node c.node)) := by
  refine ⟨((((hdo.trans hb.took).trans hwendwhile).trans hc.took).finish _ _).cast ?_ ?_, ?_⟩
  · simp [yield]
  · simp [tree, Command.nodes]
  · simp [State.finish, State.finishAt, tree, Command.numbered, Mark.unspanned, Mark.numbered,
      hb.node, hc.node, hc.took.nextId, hwendwhile.nextId, hb.took.nextId, hdo.nextId]

theorem readAs_pass (hpass : Took s t [.word .passKw] 0) :
    pass.ReadAs s (t.finish start .blank) := by
  refine ⟨hpass.finish _ _, ?_⟩
  simp [State.finish, State.finishAt, tree, Command.numbered, Mark.unspanned, Mark.numbered,
    hpass.nextId]

theorem readAs_empty : empty.ReadAs s (s.finish start .blank) :=
  ⟨⟨rfl, rfl⟩, rfl⟩

theorem ReadAs.single {D : CommandDerivation .item} {p : Parsed Command} (h : D.ReadAs s p) :
    (single D).ReadAs s p := ⟨h.took, h.node⟩

theorem readAs_seq {D : CommandDerivation .chain} {E : CommandDerivation .item} {first : Command}
    {u : State} {p : Parsed Command} (h : D.ReadAs s ⟨first, t⟩)
    (hsemi : Took t u [.fixed .semicolon] 0) (h' : E.ReadAs u p) :
    (seq D E).ReadAs s (p.after.finish start (.seq · first p.node)) := by
  refine ⟨(((h.took.trans hsemi).trans h'.took).finish _ _).cast ?_ ?_, ?_⟩
  · simp [yield]
  · rfl
  · have hnode := h.node
    have hnext := h.took.nextId
    dsimp only at hnode hnext
    simp [State.finish, State.finishAt, tree, Command.numbered, Mark.unspanned, Mark.numbered,
      hnode, h'.node, h'.took.nextId, hsemi.nextId, hnext]

end CommandDerivation

end

end TriLang
