import TriLang.Scope.Resolution
import TriLang.Proofs.Syntax.Marks

/-! # Resolution does not look at places

`unspanned` takes the spans out of symbols, errors, tables and states of resolution and leaves the rest as it
is; a symbol that a program declares still has a span, but always the same. Every step of resolution commutes
with it, and so does the walk over a tree. A whole program comes out as `resolve_unspanned`. -/
namespace TriLang
set_option autoImplicit false

def Symbol.unspanned (s : Symbol) : Symbol := { s with span? := s.span?.map fun _ => default }

def SymbolTable.unspanned (t : SymbolTable) : SymbolTable := ⟨t.symbols.map Symbol.unspanned⟩

def ResolveError.Cause.unspanned : ResolveError.Cause → ResolveError.Cause
  | undefined name => undefined name
  | duplicate name _ => duplicate name default

def ResolveError.unspanned (e : ResolveError) : ResolveError := ⟨e.cause.unspanned, default⟩

def Resolution.unspanned (r : Resolution) : Resolution where
  symbols := r.symbols.unspanned
  resolutions := r.resolutions
  declarations := r.declarations
  errors := r.errors.map ResolveError.unspanned

def Resolving.unspanned (s : Resolving) : Resolving := ⟨s.scopes, s.tables.unspanned⟩

/-! ## Tables -/

namespace SymbolTable
variable (t : SymbolTable)

theorem toList_unspanned : t.unspanned.toList = t.toList.map Symbol.unspanned :=
  Array.toList_map

theorem initial_unspanned : initial.unspanned = initial := by
  simp [unspanned, initial, Symbol.unspanned]

theorem size_unspanned : t.unspanned.size = t.size := Array.size_map

theorem get?_unspanned (id : Nat) : t.unspanned.get? id = (t.get? id).map Symbol.unspanned :=
  Array.getElem?_map

theorem insert_unspanned (name : String) (kind : Symbol.Kind) (span? : Option Span)
    (decl? : Option Nat) :
    t.unspanned.insert name kind (span?.map fun _ => default) decl? =
      (t.insert name kind span? decl?).unspanned := by
  unfold insert
  rw [size_unspanned]
  simp [unspanned, Symbol.unspanned]

end SymbolTable

theorem Resolution.kindOf?_unspanned (r : Resolution) (node : Nat) :
    r.unspanned.kindOf? node = r.kindOf? node := by
  have hget : r.unspanned.symbols.get? = fun id => (r.symbols.get? id).map Symbol.unspanned :=
    funext r.symbols.get?_unspanned
  unfold kindOf? symbolOf?
  rw [hget]
  change (r.resolutions[node]?.bind _).map _ = _
  cases r.resolutions[node]? with
  | none => rfl
  | some id => simp only [Option.bind_some, Option.map_map]; rfl

/-! ## Steps -/

namespace Resolving
variable (s : Resolving)

theorem openScope_unspanned : s.unspanned.openScope = s.openScope.unspanned := rfl

theorem closeScope_unspanned : s.unspanned.closeScope = s.closeScope.unspanned := rfl

theorem bind_unspanned (node symbol : Nat) :
    s.unspanned.bind node symbol = (s.bind node symbol).unspanned := rfl

theorem report_unspanned (cause : ResolveError.Cause) (span : Span) :
    s.unspanned.report cause.unspanned default = (s.report cause span).unspanned := by
  simp [report, unspanned, Resolution.unspanned, ResolveError.unspanned]

theorem apply_unspanned (node : Mark) (name : String) :
    s.unspanned.apply node.unspanned name = (s.apply node name).unspanned := by
  have hname : s.unspanned.scopes.retrieve? name = s.scopes.retrieve? name := rfl
  unfold apply
  rw [hname]
  cases s.scopes.retrieve? name with
  | some symbol => exact s.bind_unspanned node.id symbol
  | none =>
    dsimp only
    rw [← bind_unspanned, ← report_unspanned]
    rfl

theorem applyIdent_unspanned (i : Ident) :
    s.unspanned.applyIdent (i.mapMarks .unspanned) = (s.applyIdent i).unspanned :=
  s.apply_unspanned i.toMark i.name

theorem applyOperator_unspanned (o : Operator) :
    s.unspanned.applyOperator (o.mapMarks .unspanned) = (s.applyOperator o).unspanned :=
  s.apply_unspanned o.toMark o.spelling

theorem declaredAt_unspanned (symbol : Nat) : s.unspanned.declaredAt symbol = default := by
  unfold declaredAt
  change ((s.tables.symbols.unspanned.get? symbol).bind Symbol.span?).getD default = default
  rw [SymbolTable.get?_unspanned]
  cases s.tables.symbols.get? symbol with
  | none => rfl
  | some entry => cases hspan : entry.span? <;> simp [Symbol.unspanned, hspan]

theorem introduce_unspanned (decl : Nat) (name : Ident) (kind : Symbol.Kind) :
    s.unspanned.introduce decl (name.mapMarks .unspanned) kind =
      (s.introduce decl name kind).unspanned := by
  have hinsert := s.tables.symbols.insert_unspanned name.name kind (some name.span) (some decl)
  have hsize := s.tables.symbols.size_unspanned
  simp only [introduce, unspanned, Resolution.unspanned, ← hinsert, hsize]
  rfl

theorem declare_unspanned (decl : Nat) (name : Ident) (kind : Symbol.Kind) :
    s.unspanned.declare decl (name.mapMarks .unspanned) kind =
      (s.declare decl name kind).unspanned := by
  have hsize : s.unspanned.tables.symbols.size = s.tables.symbols.size :=
    s.tables.symbols.size_unspanned
  have hname : s.unspanned.scopes.retrieveLocal? (name.mapMarks .unspanned).name =
      s.scopes.retrieveLocal? name.name := rfl
  unfold declare
  rw [introduce_unspanned, hsize, hname]
  cases s.scopes.retrieveLocal? name.name with
  | some previous =>
    dsimp only
    rw [declaredAt_unspanned, ← report_unspanned]
    rfl
  | none => rfl

theorem addBuiltin_unspanned (name : String) (kind : Symbol.Kind) :
    s.unspanned.addBuiltin name kind = (s.addBuiltin name kind).unspanned := by
  have hinsert := s.tables.symbols.insert_unspanned name kind none none
  have hsize := s.tables.symbols.size_unspanned
  simp only [addBuiltin, unspanned, Resolution.unspanned, ← hinsert, hsize]
  rfl

theorem foldl_unspanned {α : Type} {f : Resolving → α → Resolving}
    (h : ∀ s a, f s.unspanned a = (f s a).unspanned) (entries : List α) :
    (entries.foldl f s).unspanned = entries.foldl f s.unspanned :=
  (List.foldl_hom unspanned h).symm

theorem initial_unspanned : initial.unspanned = initial := by
  unfold initial
  rw [foldl_unspanned]
  · simp only [unspanned, Resolution.unspanned, SymbolTable.initial_unspanned, List.map_nil]
  · intro s entry
    exact s.addBuiltin_unspanned entry.1 entry.2.kind

end Resolving

/-! ## Walking the tree -/

theorem Expr.resolve_unspanned (e : Expr) (s : Resolving) :
    (e.mapMarks .unspanned).resolve s.unspanned = (e.resolve s).unspanned := by
  induction e generalizing s with
  | binary m op lhs rhs ihl ihr =>
    simp only [mapMarks, resolve, ihl, Resolving.applyOperator_unspanned, ihr]
  | unary m op operand ih => simp only [mapMarks, resolve, Resolving.applyOperator_unspanned, ih]
  | int m spelling => rfl
  | char m value => rfl
  | name m ident => exact s.applyIdent_unspanned ident
  | error m => rfl

theorem Param.resolve_unspanned (p : Param) (s : Resolving) :
    (p.mapMarks .unspanned).resolve s.unspanned = (p.resolve s).unspanned := by
  cases p with
  | value m expr => exact expr.resolve_unspanned s
  | reference m ident => exact s.applyIdent_unspanned ident
  | blank m => rfl
  | error m => rfl

theorem Decl.resolve_unspanned (d : Decl) (s : Resolving) :
    (d.mapMarks .unspanned).resolve s.unspanned = (d.resolve s).unspanned := by
  induction d generalizing s with
  | const m name value =>
    rw [resolve, ← value.resolve_unspanned, ← Resolving.declare_unspanned]
    rfl
  | var m name type =>
    rw [resolve, ← Resolving.declare_unspanned, ← Resolving.applyIdent_unspanned]
    rfl
  | seq m first second ihf ihs => simp only [mapMarks, resolve, ihf, ihs]
  | error m => rfl

theorem Command.resolve_unspanned (c : Command) (s : Resolving) :
    (c.mapMarks .unspanned).resolve s.unspanned = (c.resolve s).unspanned := by
  induction c generalizing s with
  | assign m target value =>
    simp only [mapMarks, resolve, Resolving.applyIdent_unspanned, value.resolve_unspanned]
  | call m callee param =>
    simp only [mapMarks, resolve, Resolving.applyIdent_unspanned, param.resolve_unspanned]
  | cond m c t e iht ihe => simp only [mapMarks, resolve, c.resolve_unspanned, iht, ihe]
  | whileDo m c body rest ihb ihr =>
    simp only [mapMarks, resolve, Resolving.openScope_unspanned, c.resolve_unspanned, ihb, ihr,
      Resolving.closeScope_unspanned]
  | doWhile m body c ih => simp only [mapMarks, resolve, ih, c.resolve_unspanned]
  | letIn m decl body rest ihb ihr =>
    simp only [mapMarks, resolve, Resolving.openScope_unspanned, decl.resolve_unspanned, ihb,
      Resolving.closeScope_unspanned, ihr]
  | seq m first second ihf ihs => simp only [mapMarks, resolve, ihf, ihs]
  | blank m => rfl
  | error m => rfl

theorem resolve_unspanned (p : Program) : resolve p.unspanned = (resolve p).unspanned := by
  have hwalk := p.command.resolve_unspanned Resolving.initial
  rw [Resolving.initial_unspanned] at hwalk
  exact congrArg Resolving.tables hwalk

end TriLang
