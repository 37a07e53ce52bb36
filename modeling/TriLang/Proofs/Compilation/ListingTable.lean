import Mathlib.Algebra.Group.Nat.Defs
import TriLang.Compilation.Listing
import TriLang.Proofs.Compilation.Declarations
import TriLang.Proofs.Compilation.Halting
import TriLang.Proofs.Source.Positions

/-! # The table of declared names

The table of a listing has one entry for each declaration of the program, in the order of the source. What an
entry says of a declaration is `Decl.Listed`: the name and where it stands, whether it is a constant or a
variable, and the type that the rules of typing give it. -/
namespace TriLang
open TriLang.Parser TriLang.Text
set_option autoImplicit false

/-! ## What an entry says -/

/-- The name is a token of the text, at the position that is counted from the text in front of it. -/
structure Ident.StandsAt (text : List Char) (name : Ident) (position : Position) : Prop where
  token : ∃ t ∈ (tokenize text).tokens, t.kind = .identifier ∧ t.spelling = name.name ∧
    t.span = name.span ∧ t.position = position
  counted : ∃ front behind, text = front ++ behind ∧ byteLength front = name.span.start ∧
    position = .after front

/-- The type is one that values have. -/
def Ty.OfValues (type : Ty) : Prop := type = .boolean ∨ type = .char ∨ type = .integer

/-- The entry tells what the declaration declares. -/
inductive Decl.Listed (text : List Char) (a : Analyzed) : Decl → ListingEntry → Prop where
  | const {m : Mark} {name : Ident} {value : Expr} {position : Position} {type : Ty}
    (hname : name.StandsAt text position) (hplain : type.OfValues)
    (hrecorded : a.typing.nodeTypes[value.mark.id]? = some type)
    (htype : HasType a.resolution a.program.command.declarations value type) :
    Listed text a (.const m name value) ⟨name.name, "constant", type.name, position⟩
  | var {m : Mark} {name : Ident} {denoter : TypeDenoter} {position : Position} {type : Ty}
    (hname : name.StandsAt text position) (hplain : type.OfValues)
    (htype : a.resolution.kindOf? denoter.name.id = some (.type type)) :
    Listed text a (.var m name denoter) ⟨name.name, "variable", type.name, position⟩

/-! ## Names -/

theorem tokenize_position (text : List Char) :
    ∀ t ∈ (tokenize text).tokens, t.position = (LineMap.ofText text).position t.span.start := by
  intro t ht
  rcases List.mem_append.1 ht with ht | ht
  · obtain ⟨l, -, hl⟩ := List.mem_filterMap.1 ht
    unfold Lexeme.token? at hl
    split at hl
    · simp at hl
    · obtain rfl := Option.some.inj hl
      rfl
    · obtain rfl := Option.some.inj hl
      rfl
  · obtain rfl := List.mem_singleton.1 ht
    rfl

theorem Node.WellPlaced.standsAt {text : List Char} {name : Ident}
    (h : (Node.ident name).WellPlaced text) (hsize : byteLength text < wordSize) :
    name.StandsAt text ((LineMap.ofText text).position name.span.start) := by
  obtain ⟨t, ht, hkind, hspelling, hspan⟩ := h.token_ident
  have hposition := tokenize_position text t ht
  rw [hspan] at hposition
  constructor
  · exact ⟨t, ht, hkind, hspelling, hspan, hposition⟩
  · obtain ⟨front, behind, rfl, hfront⟩ := h.boundaries.1
    have hstart : byteLength front = name.span.start := hfront
    have hlt : byteLength front < wordSize := by
      rw [byteLength_append] at hsize
      omega
    refine ⟨front, behind, rfl, hstart, ?_⟩
    rw [← hstart, LineMap.position_ofText front behind hlt]

/-! ## Types -/

theorem Decl.expressions_of_singles {d : Decl} {m : Mark} {name : Ident} {value : Expr}
    (h : .const m name value ∈ d.singles) : value ∈ d.expressions := by
  induction d with
  | const m' name' value' =>
    obtain ⟨-, -, rfl⟩ := Decl.const.inj (List.mem_singleton.1 h)
    cases value <;> simp [expressions, Expr.expressions]
  | var m' name' type => simp [singles] at h
  | seq m' first second ihf ihs =>
    exact List.mem_append.2 ((List.mem_append.1 h).imp ihf ihs)
  | error m' => simp [singles] at h

theorem Command.expressions_of_declarations {c : Command} {m : Mark} {name : Ident} {value : Expr}
    (h : .const m name value ∈ c.declarations) : value ∈ c.expressions := by
  induction c with
  | cond m' c thenBranch elseBranch iht ihe =>
    exact List.mem_append_right _ (List.mem_append.2 ((List.mem_append.1 h).imp iht ihe))
  | whileDo m' c body rest ihb ihr =>
    exact List.mem_append_right _ (List.mem_append.2 ((List.mem_append.1 h).imp ihb ihr))
  | doWhile m' body c ih => exact List.mem_append_left _ (ih h)
  | letIn m' decl body rest ihb ihr =>
    refine List.mem_append.2 ((List.mem_append.1 h).imp Decl.expressions_of_singles fun h => ?_)
    exact List.mem_append.2 ((List.mem_append.1 h).imp ihb ihr)
  | seq m' first second ihf ihs => exact List.mem_append.2 ((List.mem_append.1 h).imp ihf ihs)
  | _ => simp [declarations] at h

section
variable {r : Resolution} {decls : List Decl} {m : Mark} {name : Ident} {symbol : Symbol} {type : Ty}

theorem SymbolType.value {value : Expr} (h : SymbolType r decls symbol type) (hapart : Apart decls)
    (hmem : .const m name value ∈ decls) (hkind : symbol.kind = .const none)
    (hdecl : symbol.decl? = some m.id) : HasType r decls value type := by
  cases h with
  | builtin hkind' => simp [hkind] at hkind'
  | const _ hdecl' hmem' hvalue =>
    have hsame := hapart _ hmem _ hmem' (Option.some.inj (hdecl.symm.trans hdecl'))
    obtain ⟨-, -, rfl⟩ := Decl.const.inj hsame
    exact hvalue
  | var hkind' => simp [hkind] at hkind'

theorem SymbolType.denoted {denoter : TypeDenoter} (h : SymbolType r decls symbol type)
    (hapart : Apart decls) (hmem : .var m name denoter ∈ decls) (hkind : symbol.kind = .var)
    (hdecl : symbol.decl? = some m.id) : r.kindOf? denoter.name.id = some (.type type) := by
  cases h with
  | builtin hkind' => simp [hkind] at hkind'
  | const hkind' => simp [hkind] at hkind'
  | var _ hdecl' hmem' htype =>
    have hsame := hapart _ hmem _ hmem' (Option.some.inj (hdecl.symm.trans hdecl'))
    obtain ⟨-, -, rfl⟩ := Decl.var.inj hsame
    exact htype

end

/-! ## The whole table -/

/-- The table has exactly one entry for each declaration of an accepted program, in the order in which the
declarations stand in the source, and the entry tells what is declared. -/
theorem generate_lists_declarations (text : List Char) (width : Nat) (sink : Sink) (a : Analyzed)
    (hsize : byteLength text < 2 ^ 32 - 1) (h : (analyze text sink).outcome = .ok a) :
    List.Forall₂ (Decl.Listed text a) a.program.command.declarations
      (Listing.generate text width a).entries ∧
    a.program.command.declarations.Pairwise Decl.Precedes := by
  obtain ⟨hnone, rfl⟩ := of_analyze_ok h
  let p := (parseText text).program
  let r := resolve p
  have hparse : (parseText text).errors = [] := List.map_eq_nil_iff.1 (hnone .parsing)
  have hresolve : r.errors = [] := List.map_eq_nil_iff.1 (hnone .identification)
  have htyping : (typecheck r p).errors = [] := List.map_eq_nil_iff.1 (hnone .typing)
  obtain ⟨hids, hfree⟩ := nodup_ids_of_parse hparse
  have hstart := (ordered_resolve p).agrees_builtinTypes p.command.declarations
  obtain ⟨-, hagrees, hrecorded⟩ := (checks_of_resolve hfree hids hresolve).sound _ hstart htyping
  have htree := tree_wellPlaced text
  have hword : byteLength text < wordSize := by
    unfold wordSize
    omega
  refine ⟨List.forall₂_map_right_iff.2 ?_, pairwise_declarations text⟩
  refine forall₂_comp p.command.forall₂_declarations (resolve_declared p) ?_
  intro d hd x hx s hs hdx hmade
  obtain ⟨hlead, hentry⟩ := resolve_leads hids hx hs hmade
  obtain ⟨type, htype⟩ := hagrees.declared x.node (List.mem_map_of_mem hx) s.id hlead
  obtain ⟨hplain, hrules, -⟩ := hagrees.sound s.id s type hentry htype
  have hname := (htree.name x hx).standsAt hword
  have hlisted : ListingEntry.ofSymbol (LineMap.ofText text) (findings text) s =
      ⟨x.name.name, x.kind.describe, type.name, (LineMap.ofText text).position x.name.span.start⟩ := by
    have hsymbol : (findings text).symbolType? s.id = some type := htype
    rw [ListingEntry.ofSymbol, hsymbol, hmade]
    rfl
  have hapart := Command.apart_declarations hids
  have hvalues : type.OfValues := Ty.cases_of_isPlain hplain
  have hkind : s.kind = x.kind := by rw [hmade]; rfl
  have hdecl : s.decl? = some x.node := by rw [hmade]; rfl
  rw [hlisted]
  cases hdx with
  | const m name value =>
    have hvalue := hrules.value hapart hd hkind hdecl
    obtain ⟨type', hnode, htype', -⟩ := hrecorded value (Command.expressions_of_declarations hd)
    obtain rfl := htype'.unique hapart hvalue
    exact .const hname hvalues hnode hvalue
  | var m name denoter =>
    exact .var hname hvalues (hrules.denoted hapart hd hkind hdecl)

theorem generate_lists_declarations_nested :
    let text := ("! é\nlet const c ~ 'x'; var n Integer in\n" ++
      "  let var c Boolean in c = n < 1 endlet pass\nendlet").toList
    byteLength text < 2 ^ 32 - 1 ∧ ∃ a, (analyze text .empty).outcome = .ok a ∧
      List.Forall₂ (Decl.Listed text a) a.program.command.declarations
        (Listing.generate text 2 a).entries ∧
      a.program.command.declarations.Pairwise Decl.Precedes := by
  intro text
  have hsize : byteLength text < 2 ^ 32 - 1 := by decide +kernel
  have haccepted : (analyze text .empty).outcome.isOk = true := by decide +kernel
  cases houtcome : (analyze text .empty).outcome with
  | error halted => simp [houtcome, Except.isOk, Except.toBool] at haccepted
  | ok a => exact ⟨hsize, a, rfl, generate_lists_declarations text 2 .empty a hsize houtcome⟩

/-- The inner `c` hides the outer one, and has an entry of its own. -/
example : (Listing.generate "let const c ~ 'x' in let var c Boolean in pass endlet endlet".toList 2
    (findings "let const c ~ 'x' in let var c Boolean in pass endlet endlet".toList)).entries =
    [⟨"c", "constant", "Char", ⟨1, 11⟩⟩, ⟨"c", "variable", "Boolean", ⟨1, 30⟩⟩] := by
  decide +kernel

end TriLang
