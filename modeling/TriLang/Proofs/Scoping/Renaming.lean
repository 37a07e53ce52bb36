import TriLang.Proofs.Scoping.Walks
import TriLang.Proofs.Syntax.Renaming

/-! # Resolution compares names and nothing else

`rename` gives scopes, symbols, errors and states of resolution other names and leaves their numbers and spans
as they are. Under an injective change of names a look-up finds what it has found before, so a declaration
repeats a name of its scope exactly if it has done so before. Every event of a run therefore commutes with the
change of names (`Resolving.step_rename`), and so does the run. The walk through a renamed tree is the renamed
walk, if the operators of the tree are not spelled like identifiers, and the standard environment keeps its
names. A whole program comes out as `resolve_rename`. -/
namespace TriLang
set_option autoImplicit false

variable (ρ : Renaming)

/-! ## Scopes -/

def Bindings.rename (scope : Bindings) : Bindings := scope.map (Prod.map ρ.apply id)

def ScopeStack.rename (s : ScopeStack) : ScopeStack := ⟨s.scopes.map (Bindings.rename ρ)⟩

theorem Bindings.lookup_rename (scope : Bindings) (name : String) :
    (scope.rename ρ).lookup (ρ.apply name) = scope.lookup name := by
  induction scope with
  | nil => rfl
  | cons entry scope ih =>
    -- This is the only place where one name is compared with another.
    have hname : (ρ.apply name == ρ.apply entry.1) = (name == entry.1) := by
      rw [Bool.eq_iff_iff, beq_iff_eq, beq_iff_eq, ρ.apply_injective.eq_iff]
    change List.lookup (ρ.apply name) ((ρ.apply entry.1, entry.2) :: rename ρ scope) = _
    rw [List.lookup_cons, List.lookup_cons, hname, ih]

namespace ScopeStack
variable (s : ScopeStack)

theorem retrieve?_rename (name : String) :
    (s.rename ρ).retrieve? (ρ.apply name) = s.retrieve? name := by
  unfold retrieve? rename
  rw [List.findSome?_map]
  exact congrArg (List.findSome? · s.scopes) (funext fun scope => scope.lookup_rename ρ name)

theorem retrieveLocal?_rename (name : String) :
    (s.rename ρ).retrieveLocal? (ρ.apply name) = s.retrieveLocal? name := by
  obtain ⟨scopes⟩ := s
  cases scopes with
  | nil => rfl
  | cons scope outer => exact scope.lookup_rename ρ name

theorem enter_rename (name : String) (symbol : Nat) :
    (s.rename ρ).enter (ρ.apply name) symbol = (s.enter name symbol).map id (rename ρ) := by
  obtain ⟨scopes⟩ := s
  cases scopes with
  | nil => rfl
  | cons scope outer =>
    have hname := scope.lookup_rename ρ name
    simp only [enter, rename, List.map_cons, hname]
    split
    · rfl
    · rfl

theorem closeScope_rename : (s.rename ρ).closeScope = s.closeScope.map id (rename ρ) := by
  obtain ⟨scopes⟩ := s
  cases scopes <;> rfl

end ScopeStack

/-! ## Symbols and errors -/

def Symbol.rename (s : Symbol) : Symbol := { s with name := ρ.apply s.name }

def SymbolTable.rename (t : SymbolTable) : SymbolTable := ⟨t.symbols.map (Symbol.rename ρ)⟩

def ResolveError.Cause.rename : ResolveError.Cause → ResolveError.Cause
  | undefined name => undefined (ρ.apply name)
  | duplicate name previous => duplicate (ρ.apply name) previous

def ResolveError.rename (e : ResolveError) : ResolveError := ⟨e.cause.rename ρ, e.span⟩

def Resolution.rename (r : Resolution) : Resolution where
  symbols := r.symbols.rename ρ
  resolutions := r.resolutions
  declarations := r.declarations
  errors := r.errors.map (ResolveError.rename ρ)

def Resolving.rename (s : Resolving) : Resolving := ⟨s.scopes.rename ρ, s.tables.rename ρ⟩

namespace SymbolTable
variable (t : SymbolTable)

theorem initial_rename : initial.rename ρ = initial := by
  have hunknown : ρ.apply "<unknown>" = "<unknown>" := ρ.apply_other (by decide)
  simp [rename, initial, Symbol.rename, hunknown]

theorem size_rename : (t.rename ρ).size = t.size := Array.size_map

theorem get?_rename (id : Nat) : (t.rename ρ).get? id = (t.get? id).map (Symbol.rename ρ) :=
  Array.getElem?_map

theorem insert_rename (name : String) (kind : Symbol.Kind) (span? : Option Span) (decl? : Option Nat) :
    (t.rename ρ).insert (ρ.apply name) kind span? decl? = (t.insert name kind span? decl?).rename ρ := by
  unfold insert
  rw [size_rename]
  simp [rename, Symbol.rename]

end SymbolTable

theorem Resolution.kindOf?_rename (r : Resolution) (node : Nat) :
    (r.rename ρ).kindOf? node = r.kindOf? node := by
  have hget : (r.rename ρ).symbols.get? = fun id => (r.symbols.get? id).map (Symbol.rename ρ) :=
    funext (r.symbols.get?_rename ρ)
  unfold kindOf? symbolOf?
  rw [hget]
  change (r.resolutions[node]?.bind _).map _ = _
  cases r.resolutions[node]? with
  | none => rfl
  | some id => simp only [Option.bind_some, Option.map_map]; rfl

/-! ## Events -/

def Leaf.rename (leaf : Leaf) : Leaf := ⟨leaf.toMark, ρ.apply leaf.spelling⟩

def Declared.rename (d : Declared) : Declared := { d with name := d.name.rename ρ }

namespace Resolving

def Event.rename : Event → Event
  | apply leaf => apply (leaf.rename ρ)
  | declare d => declare (d.rename ρ)
  | openScope => openScope
  | closeScope => closeScope

variable (s : Resolving)

theorem closeScope_rename : (s.rename ρ).closeScope = s.closeScope.rename ρ := by
  have hscopes : (s.rename ρ).scopes.closeScope = s.scopes.closeScope.map id (.rename ρ) :=
    s.scopes.closeScope_rename ρ
  unfold closeScope
  rw [hscopes]
  rfl

theorem report_rename (cause : ResolveError.Cause) (span : Span) :
    (s.rename ρ).report (cause.rename ρ) span = (s.report cause span).rename ρ := by
  simp [report, rename, Resolution.rename, ResolveError.rename]

theorem apply_rename (node : Mark) (name : String) :
    (s.rename ρ).apply node (ρ.apply name) = (s.apply node name).rename ρ := by
  have hname : (s.rename ρ).scopes.retrieve? (ρ.apply name) = s.scopes.retrieve? name :=
    s.scopes.retrieve?_rename ρ name
  have hreport := s.report_rename ρ (.undefined name) node.span
  unfold apply
  rw [hname]
  cases s.scopes.retrieve? name with
  | some symbol => rfl
  | none => exact congrArg (·.bind node.id SymbolTable.unknown) hreport

theorem introduce_rename (decl : Nat) (name : Ident) (kind : Symbol.Kind) :
    (s.rename ρ).introduce decl (name.rename ρ) kind = (s.introduce decl name kind).rename ρ := by
  have hinsert := s.tables.symbols.insert_rename ρ name.name kind (some name.span) (some decl)
  have hsize := s.tables.symbols.size_rename ρ
  simp only [introduce, rename, Resolution.rename, ← hinsert, hsize]
  rfl

theorem declaredAt_rename (symbol : Nat) : (s.rename ρ).declaredAt symbol = s.declaredAt symbol := by
  have hget : (s.rename ρ).tables.symbols.get? symbol =
      (s.tables.symbols.get? symbol).map (.rename ρ) := s.tables.symbols.get?_rename ρ symbol
  unfold declaredAt
  rw [hget]
  cases s.tables.symbols.get? symbol <;> rfl

theorem entered_rename (name : String) (symbol : Nat) :
    ((s.rename ρ).scopes.enter (ρ.apply name) symbol).2 = (s.scopes.enter name symbol).2.rename ρ :=
  congrArg Prod.snd (s.scopes.enter_rename ρ name symbol)

theorem declare_rename (decl : Nat) (name : Ident) (kind : Symbol.Kind) :
    (s.rename ρ).declare decl (name.rename ρ) kind = (s.declare decl name kind).rename ρ := by
  have hsize : (s.rename ρ).tables.symbols.size = s.tables.symbols.size :=
    s.tables.symbols.size_rename ρ
  have hname : (s.rename ρ).scopes.retrieveLocal? (name.rename ρ).name =
      s.scopes.retrieveLocal? name.name := s.scopes.retrieveLocal?_rename ρ name.name
  unfold declare
  rw [introduce_rename, hsize, hname]
  cases s.scopes.retrieveLocal? name.name with
  | some previous =>
    dsimp only
    rw [declaredAt_rename, ← report_rename]
    rfl
  | none => exact congrArg (mk · _) (s.entered_rename ρ name.name s.tables.symbols.size)

theorem step_rename (event : Event) :
    (s.rename ρ).step (event.rename ρ) = (s.step event).rename ρ := by
  cases event with
  | apply leaf => exact s.apply_rename ρ leaf.toMark leaf.spelling
  | declare d => exact s.declare_rename ρ d.node d.name d.kind
  | openScope => rfl
  | closeScope => exact s.closeScope_rename ρ

theorem run_rename (events : List Event) :
    (s.rename ρ).run (events.map (Event.rename ρ)) = (s.run events).rename ρ := by
  induction events generalizing s with
  | nil => rfl
  | cons event events ih => rw [List.map_cons, run_cons, step_rename, ih, run_cons]

/-! ## The standard environment -/

theorem addBuiltin_rename (name : String) (kind : Symbol.Kind) :
    (s.rename ρ).addBuiltin (ρ.apply name) kind = (s.addBuiltin name kind).rename ρ := by
  have hinsert := s.tables.symbols.insert_rename ρ name kind none none
  have hsize : (s.rename ρ).tables.symbols.size = s.tables.symbols.size :=
    s.tables.symbols.size_rename ρ
  unfold addBuiltin
  rw [hsize, entered_rename]
  simp only [rename, Resolution.rename, ← hinsert]

theorem foldl_addBuiltin_rename (entries : List (String × StandardEntity))
    (h : ∀ entry ∈ entries, ρ.apply entry.1 = entry.1) :
    (entries.foldl (fun s (name, entity) => s.addBuiltin name entity.kind) s).rename ρ =
      entries.foldl (fun s (name, entity) => s.addBuiltin name entity.kind) (s.rename ρ) := by
  induction entries generalizing s with
  | nil => rfl
  | cons entry entries ih =>
    obtain ⟨hname, h⟩ := List.forall_mem_cons.1 h
    rw [List.foldl_cons, List.foldl_cons, ih _ h, ← addBuiltin_rename, hname]

theorem initial_rename : initial.rename ρ = initial := by
  have hnames : ∀ entry ∈ standardEnvironment, ρ.apply entry.1 = entry.1 := fun entry hentry =>
    ρ.apply_standard (List.any_eq_true.2 ⟨entry, hentry, by simp⟩)
  rw [initial, foldl_addBuiltin_rename ρ _ _ hnames]
  simp only [rename, Resolution.rename, SymbolTable.initial_rename, List.map_nil]
  rfl

end Resolving

/-! ## Walking renamed trees -/

open Resolving

theorem Operator.toLeaf_rename {op : Operator} (h : isIdentifier op.spelling = false) :
    op.toLeaf.rename ρ = op.toLeaf := congrArg (Leaf.mk op.toMark) (ρ.apply_other h)

theorem Expr.walk_rename (e : Expr) (h : (Node.expr e).OperatorsApart) :
    (e.rename ρ).walk = e.walk.map (Event.rename ρ) := by
  induction e with
  | binary m op lhs rhs ihl ihr =>
    have hop := op.toLeaf_rename ρ (h.child (c := .operator op) (by simp [Node.children, children])).self
    have hl := ihl (h.child (by simp [Node.children, children]))
    have hr := ihr (h.child (by simp [Node.children, children]))
    simp [walk, Event.rename, hop, hl, hr]
  | unary m op operand ih =>
    have hop := op.toLeaf_rename ρ (h.child (c := .operator op) (by simp [Node.children, children])).self
    have hoperand := ih (h.child (by simp [Node.children, children]))
    simp [walk, Event.rename, hop, hoperand]
  | int m spelling => rfl
  | char m value => rfl
  | name m ident => rfl
  | error m => rfl

theorem Param.walk_rename (p : Param) (h : (Node.param p).OperatorsApart) :
    (p.rename ρ).walk = p.walk.map (Event.rename ρ) := by
  cases p with
  | value m expr => exact expr.walk_rename ρ (h.child (by simp [Node.children, children]))
  | reference m ident => rfl
  | blank m => rfl
  | error m => rfl

theorem Decl.walk_rename (d : Decl) (h : (Node.decl d).OperatorsApart) :
    (d.rename ρ).walk = d.walk.map (Event.rename ρ) := by
  induction d with
  | const m name value =>
    have hvalue := value.walk_rename ρ (h.child (by simp [Node.children, children]))
    simp [walk, Event.rename, Declared.rename, hvalue]
  | var m name type => rfl
  | seq m first second ihf ihs =>
    have hfirst := ihf (h.child (by simp [Node.children, children]))
    have hsecond := ihs (h.child (by simp [Node.children, children]))
    simp [walk, hfirst, hsecond]
  | error m => rfl

theorem Command.walk_rename (c : Command) (h : (Node.command c).OperatorsApart) :
    (c.rename ρ).walk = c.walk.map (Event.rename ρ) := by
  induction c with
  | assign m target value =>
    have hvalue := value.walk_rename ρ (h.child (by simp [Node.children, children]))
    exact congrArg (Event.apply (target.rename ρ).toLeaf :: ·) hvalue
  | call m callee param =>
    have hparam := param.walk_rename ρ (h.child (by simp [Node.children, children]))
    exact congrArg (Event.apply (callee.rename ρ).toLeaf :: ·) hparam
  | cond m c thenBranch elseBranch iht ihe =>
    have hc := c.walk_rename ρ (h.child (by simp [Node.children, children]))
    have hthen := iht (h.child (by simp [Node.children, children]))
    have helse := ihe (h.child (by simp [Node.children, children]))
    simp [walk, hc, hthen, helse]
  | whileDo m c body rest ihb ihr =>
    have hc := c.walk_rename ρ (h.child (by simp [Node.children, children]))
    have hbody := ihb (h.child (by simp [Node.children, children]))
    have hrest := ihr (h.child (by simp [Node.children, children]))
    simp [walk, Event.rename, hc, hbody, hrest]
  | doWhile m body c ih =>
    have hbody := ih (h.child (by simp [Node.children, children]))
    have hc := c.walk_rename ρ (h.child (by simp [Node.children, children]))
    simp [walk, hbody, hc]
  | letIn m decl body rest ihb ihr =>
    have hdecl := decl.walk_rename ρ (h.child (by simp [Node.children, children]))
    have hbody := ihb (h.child (by simp [Node.children, children]))
    have hrest := ihr (h.child (by simp [Node.children, children]))
    simp [walk, Event.rename, hdecl, hbody, hrest]
  | seq m first second ihf ihs =>
    have hfirst := ihf (h.child (by simp [Node.children, children]))
    have hsecond := ihs (h.child (by simp [Node.children, children]))
    simp [walk, hfirst, hsecond]
  | blank m => rfl
  | error m => rfl

/-- To resolve a renamed program is to resolve the program and to rename what comes of it. -/
theorem resolve_rename (p : Program) (h : (Node.command p.command).OperatorsApart) :
    resolve (p.rename ρ) = (resolve p).rename ρ := by
  have hrun := initial.run_rename ρ p.command.walk
  rw [initial_rename, ← p.command.walk_rename ρ h, ← Command.resolve_eq_run,
    ← Command.resolve_eq_run] at hrun
  exact congrArg Resolving.tables hrun

end TriLang
