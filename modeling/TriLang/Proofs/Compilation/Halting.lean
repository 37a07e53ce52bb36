import TriLang.Compilation.Analysis

/-! # Where an analysis stops

A sink that was filled by reports counts the errors in it. So an analysis is a run over the four phases that
stops at the first one that finds an error, or at once if there was an error before (`Phase.run_reportAll`).
What an analysis answers and what it leaves in the sink comes out as `analyze_stops`. -/
namespace TriLang
set_option autoImplicit false

/-! ## Sinks -/

namespace Sink

theorem reportAll_items (s : Sink) (ds : List Diagnostic) :
    (s.reportAll ds).items = s.items ++ ds := by
  induction ds generalizing s with
  | nil => exact (List.append_nil _).symm
  | cons d ds ih =>
    change ((s.report d).reportAll ds).items = _
    rw [ih, report, List.append_assoc, List.singleton_append]

theorem reportAll_errorCount (s : Sink) (ds : List Diagnostic) :
    (s.reportAll ds).errorCount = s.errorCount + ds.countP Diagnostic.isError := by
  induction ds generalizing s with
  | nil => rfl
  | cons d ds ih =>
    change ((s.report d).reportAll ds).errorCount = _
    rw [ih, List.countP_cons]
    by_cases h : d.isError = true
    · simp only [report, if_pos h]
      omega
    · simp only [report, if_neg h]
      omega

theorem items_empty_reportAll (ds : List Diagnostic) : (empty.reportAll ds).items = ds :=
  empty.reportAll_items ds

theorem errorCount_empty_reportAll (ds : List Diagnostic) :
    (empty.reportAll ds).errorCount = ds.countP Diagnostic.isError := by
  rw [reportAll_errorCount]
  exact Nat.zero_add _

theorem reportAll_append (s : Sink) (ds ds' : List Diagnostic) :
    (s.reportAll ds).reportAll ds' = s.reportAll (ds ++ ds') :=
  List.foldl_append.symm

theorem hasErrors_empty_reportAll (ds : List Diagnostic) :
    (empty.reportAll ds).hasErrors = ds.any Diagnostic.isError := by
  rw [Bool.eq_iff_iff, hasErrors, errorCount_empty_reportAll, decide_eq_true_iff, List.any_eq_true]
  exact List.countP_pos_iff

end Sink

/-! ## Errors as diagnostics -/

theorem Diagnostic.isError_withHelp? (d : Diagnostic) (help? : Option String) :
    (d.withHelp? help?).isError = d.isError := by
  cases help? <;> rfl

theorem LexError.isError_toDiagnostic (e : LexError) : e.toDiagnostic.isError = true := by
  unfold toDiagnostic
  split <;> exact Diagnostic.isError_withHelp? _ _

theorem ParseError.isError_toDiagnostic (e : ParseError) : e.toDiagnostic.isError = true :=
  Diagnostic.isError_withHelp? _ _

theorem ResolveError.isError_toDiagnostic (e : ResolveError) : e.toDiagnostic.isError = true := by
  unfold toDiagnostic
  split <;> rfl

theorem TypeError.isError_toDiagnostic (e : TypeError) : e.toDiagnostic.isError = true := by
  unfold toDiagnostic
  split <;> rfl

/-! ## Phases -/

/-- What is found out about a text, whether or not there are errors in it. -/
def findings (text : List Char) : Analyzed :=
  let program := (parseText text).program
  let resolution := resolve program
  ⟨program, resolution, typecheck resolution program⟩

/-- The errors that a phase finds in a text, as diagnostics. -/
def Phase.found (text : List Char) : Phase → List Diagnostic
  | lexing => (tokenize text).errors.map LexError.toDiagnostic
  | parsing => (parseText text).errors.map ParseError.toDiagnostic
  | identification => (findings text).resolution.errors.map ResolveError.toDiagnostic
  | typing => (findings text).typing.errors.map TypeError.toDiagnostic

def Phase.order : List Phase := [lexing, parsing, identification, typing]

theorem Phase.isError_found (text : List Char) (k : Phase) :
    ∀ d ∈ k.found text, d.isError = true := by
  cases k with
  | lexing => exact List.forall_mem_map.2 fun e _ => e.isError_toDiagnostic
  | parsing => exact List.forall_mem_map.2 fun e _ => e.isError_toDiagnostic
  | identification => exact List.forall_mem_map.2 fun e _ => e.isError_toDiagnostic
  | typing => exact List.forall_mem_map.2 fun e _ => e.isError_toDiagnostic

/-- There are errors after a phase: older ones, or the phase finds some. -/
def Phase.stops (text : List Char) (prior : List Diagnostic) (k : Phase) : Bool :=
  prior.any Diagnostic.isError || !(k.found text).isEmpty

/-! ## Runs -/

/-- The run over some phases that ends with `done`. -/
def Phase.run (text : List Char) (done : Analyzed) : List Phase → Sink → Analysis
  | [], sink => ⟨.ok done, sink⟩
  | k :: rest, sink => sink.afterPhase k (k.found text) (run text done rest)

theorem analyze_eq_run (text : List Char) (sink : Sink) :
    analyze text sink = Phase.run text (findings text) Phase.order sink := rfl

/-- A phase after which there are errors stops the run, and any other one leaves the sink as it was. -/
theorem Sink.afterPhase_reportAll (text : List Char) (prior : List Diagnostic) (k : Phase)
    (next : Sink → Analysis) :
    (empty.reportAll prior).afterPhase k (k.found text) next =
      if k.stops text prior then
        let sink := (empty.reportAll prior).reportAll (k.found text)
        ⟨.error ⟨k, sink.errorCount⟩, sink⟩
      else next (empty.reportAll prior) := by
  have hfound : (k.found text).any Diagnostic.isError = !(k.found text).isEmpty := by
    cases hds : k.found text with
    | nil => rfl
    | cons d ds =>
      have hd : d.isError = true := k.isError_found text d (by simp [hds])
      rw [List.any_cons, hd]
      rfl
  have hstops : ((empty.reportAll prior).reportAll (k.found text)).hasErrors = k.stops text prior := by
    rw [reportAll_append, hasErrors_empty_reportAll, List.any_append, hfound]
    rfl
  unfold afterPhase
  dsimp only
  rw [hstops]
  by_cases h : k.stops text prior = true
  · rw [if_pos h, if_pos h]
  · rw [if_neg h, if_neg h]
    have hnil : k.found text = [] := by
      simp only [Phase.stops, Bool.or_eq_true, not_or, Bool.not_eq_true, Bool.not_eq_false'] at h
      exact List.isEmpty_iff.1 h.2
    rw [hnil]
    rfl

theorem Phase.run_reportAll (text : List Char) (prior : List Diagnostic) (done : Analyzed)
    (phases : List Phase) :
    run text done phases (Sink.empty.reportAll prior) =
      match phases.find? (stops text prior) with
      | none => ⟨.ok done, Sink.empty.reportAll prior⟩
      | some k =>
        let sink := (Sink.empty.reportAll prior).reportAll (k.found text)
        ⟨.error ⟨k, sink.errorCount⟩, sink⟩ := by
  induction phases with
  | nil => rfl
  | cons k rest ih =>
    rw [run, Sink.afterPhase_reportAll]
    cases h : k.stops text prior with
    | true => rw [List.find?_cons_of_pos h, if_pos rfl]
    | false => rw [List.find?_cons_of_neg (by simp [h]), if_neg (by simp), ih]

/-- An error of before stops the analysis after the first phase, and nothing else of before matters. -/
theorem Phase.find?_stops (text : List Char) (prior : List Diagnostic) :
    order.find? (stops text prior) =
      if prior.any Diagnostic.isError then some lexing else order.find? (stops text []) := by
  by_cases h : prior.any Diagnostic.isError = true
  · rw [if_pos h]
    exact List.find?_cons_of_pos (by simp [stops, h])
  · rw [if_neg h]
    have hstops : stops text prior = stops text [] := by
      funext k
      simp [stops, h]
    rw [hstops]

/-! ## Accepted texts -/

theorem Sink.of_afterPhase_ok {sink : Sink} {k : Phase} {errors : List Diagnostic}
    {next : Sink → Analysis} {a : Analyzed} (h : (sink.afterPhase k errors next).outcome = .ok a)
    (herrors : ∀ d ∈ errors, d.isError = true) : errors = [] ∧ (next sink).outcome = .ok a := by
  have hcount := sink.reportAll_errorCount errors
  rw [List.countP_eq_length.2 herrors] at hcount
  unfold afterPhase at h
  dsimp only at h
  split at h
  · simp at h
  · next hnone =>
    have hzero : (sink.reportAll errors).errorCount = 0 := by simpa [hasErrors] using hnone
    obtain rfl : errors = [] := List.length_eq_zero_iff.1 (by omega)
    exact ⟨rfl, h⟩

theorem Phase.of_run_ok {text : List Char} {done a : Analyzed} {phases : List Phase} {sink : Sink}
    (h : (run text done phases sink).outcome = .ok a) :
    (∀ k ∈ phases, k.found text = []) ∧ a = done := by
  induction phases generalizing sink with
  | nil => exact ⟨by simp, (Except.ok.inj h).symm⟩
  | cons k rest ih =>
    obtain ⟨hfound, hrest⟩ := Sink.of_afterPhase_ok h (k.isError_found text)
    obtain ⟨hnone, hdone⟩ := ih hrest
    exact ⟨List.forall_mem_cons.2 ⟨hfound, hnone⟩, hdone⟩

/-- In a text that is accepted no phase finds an error, whatever the sink held before. -/
theorem of_analyze_ok {text : List Char} {sink : Sink} {a : Analyzed}
    (h : (analyze text sink).outcome = .ok a) :
    (∀ k : Phase, k.found text = []) ∧ a = findings text := by
  obtain ⟨hnone, hdone⟩ := Phase.of_run_ok (analyze_eq_run text sink ▸ h)
  exact ⟨fun k => hnone k (by cases k <;> simp [Phase.order]), hdone⟩

/-! ## Analyses -/

/-- An analysis stops after the first phase that finds an error, or after the first one of all if the sink
held an error before; warnings and notes do not stop it. Its answer then tells that phase and the number of
errors in the sink, which has just the errors of that phase added. If no phase stops it, it answers with what
was found out, and the sink is as it was. At any time the sink knows how many errors it holds. -/
theorem analyze_stops (text : List Char) (prior : List Diagnostic) :
    let sink := Sink.empty.reportAll prior
    let analysis := analyze text sink
    let stop? := Phase.order.find? (Phase.stops text prior)
    (match stop? with
      | none => analysis.outcome = .ok (findings text) ∧ analysis.sink = sink
      | some k => analysis.outcome = .error ⟨k, analysis.sink.errorCount⟩ ∧
        analysis.sink.items = prior ++ k.found text) ∧
      (stop? = if prior.any Diagnostic.isError then some .lexing
        else Phase.order.find? (Phase.stops text [])) ∧
      sink.items = prior ∧ sink.errorCount = sink.items.countP Diagnostic.isError ∧
      analysis.sink.errorCount = analysis.sink.items.countP Diagnostic.isError := by
  intro sink analysis stop?
  have hitems : sink.items = prior := Sink.items_empty_reportAll prior
  have hcount : sink.errorCount = sink.items.countP Diagnostic.isError := by
    rw [hitems]
    exact Sink.errorCount_empty_reportAll prior
  have hrun : analysis = match stop? with
      | none => ⟨.ok (findings text), sink⟩
      | some k =>
        ⟨.error ⟨k, (sink.reportAll (k.found text)).errorCount⟩, sink.reportAll (k.found text)⟩ :=
    (analyze_eq_run text sink).trans
      (Phase.run_reportAll text prior (findings text) Phase.order)
  refine ⟨?_, Phase.find?_stops text prior, hitems, hcount, ?_⟩
  · rw [hrun]
    cases stop? with
    | none => exact ⟨rfl, rfl⟩
    | some k => exact ⟨rfl, by rw [Sink.reportAll_items, hitems]⟩
  · rw [hrun]
    cases stop? with
    | none => exact hcount
    | some k =>
      dsimp only
      rw [Sink.reportAll_items, Sink.reportAll_errorCount, hcount, List.countP_append]

end TriLang
