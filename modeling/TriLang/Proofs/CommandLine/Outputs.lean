import Mathlib.Logic.Function.Basic
import TriLang.CommandLine.FileTree
import TriLang.CommandLine.Run
import TriLang.Proofs.Compilation.ListingText

/-! # What a compilation does to files

A `FileSystem` is any system of files that answers reading and writing as it likes, so long as a write
either replaces the whole file or fails. Nothing is said about what a write that fails leaves of the file it
was meant for. The `Disk` keeps a record of all writes that were attempted.

A compilation attempts no write before the whole analysis has succeeded, writes the binary form first, and
attempts the text form only if that succeeded. The exit code is 0 just in case everything succeeded
(`compile_writes_outputs`). All this is so whichever files the two paths lead to. What is written in different
ways may be the path of one file, though, and then the text form takes the place of the binary form
(`one_file_two_paths`). -/
namespace TriLang
set_option autoImplicit false

/-! ## Systems of files -/

/-- The texts of the files, and the writes attempted so far, by path and text. -/
structure Disk where
  files : String → Option String
  attempts : List (String × String)

structure FileSystem where
  /-- The file that a path leads to. Two paths may lead to the same one. -/
  place : String → String
  /-- The text that reading a path gives, or why it fails. -/
  read : Disk → String → Except FileError String
  /-- Why writing a text to a path fails, if it does. -/
  refusal? : Disk → String → String → Option FileError
  /-- What is in the file after a write that failed. -/
  damaged : Disk → String → String → Option String

namespace FileSystem
variable (fs : FileSystem)

/-- A write replaces the file, or fails. It is recorded in either case. -/
def write (d : Disk) (path text : String) : Except FileError Unit × Disk :=
  let attempts := d.attempts ++ [(path, text)]
  match fs.refusal? d path text with
  | none => (.ok (), ⟨Function.update d.files (fs.place path) (some text), attempts⟩)
  | some cause =>
    (.error cause, ⟨Function.update d.files (fs.place path) (fs.damaged d path text), attempts⟩)

/-- Access to the files for computations that change the disk. -/
@[reducible] def access : Files (StateM Disk) where
  read path := fun d => (fs.read d path, d)
  write path text := fun d => fs.write d path text

/-- A run of the command on a disk: its outcome, and the disk after it. -/
def run (colour : Bool) (o : Options) (d : Disk) : Outcome × Disk :=
  @Options.run (StateM Disk) _ fs.access colour o d

theorem read_access (path : String) (d : Disk) :
    @Files.read (StateM Disk) fs.access path d = (fs.read d path, d) := rfl

theorem write_access (path text : String) (d : Disk) :
    @Files.write (StateM Disk) fs.access path text d = fs.write d path text := rfl

theorem write_attempts (d : Disk) (path text : String) :
    (fs.write d path text).2.attempts = d.attempts ++ [(path, text)] := by
  unfold write
  dsimp only
  split
  · rfl
  · rfl

theorem write_replaces {d : Disk} {path text : String} (h : (fs.write d path text).1 = .ok ()) :
    (fs.write d path text).2.files (fs.place path) = some text := by
  unfold write at h ⊢
  dsimp only at h ⊢
  split at h
  · exact Function.update_self _ _ _
  · simp at h

/-- Writing to one file leaves any other one alone, whether or not it succeeds. -/
theorem write_apart (d : Disk) (path text : String) {other : String} (h : other ≠ fs.place path) :
    (fs.write d path text).2.files other = d.files other := by
  unfold write
  dsimp only
  split
  · exact Function.update_of_ne h _ _
  · exact Function.update_of_ne h _ _

/-! ## Runs -/

section
variable {α β : Type}

theorem run_bind (x : StateM Disk α) (f : α → StateM Disk β) (d : Disk) :
    (x >>= f) d = f (x d).1 (x d).2 := rfl

end

/-- The source that is read from a path, or the fault that ends the run. -/
def source (d : Disk) (path : String) : Except FileFault SourceFile :=
  match fs.read d path with
  | .ok text => .ok ⟨path, text.toList⟩
  | .error cause => .error ⟨.read, path, cause⟩

theorem run_read (path : String) (d : Disk) :
    @SourceFile.read (StateM Disk) _ fs.access path d = (fs.source d path, d) := by
  unfold SourceFile.read source
  rw [run_bind, read_access]
  cases fs.read d path with
  | ok text => rfl
  | error cause => rfl

theorem run_writeFile (path text : String) (d : Disk) :
    @writeFile (StateM Disk) _ fs.access path text d =
      ((fs.write d path text).1.mapError (⟨.write, path, ·⟩), (fs.write d path text).2) := by
  unfold writeFile
  rw [run_bind, write_access]
  cases (fs.write d path text).1 with
  | ok _ => rfl
  | error cause => rfl

theorem run_write (l : Listing) (binary text : String) (d : Disk) :
    @Listing.write (StateM Disk) _ fs.access l binary text d =
      match fs.write d binary l.toBinary with
      | (.error cause, after) => (.error ⟨.write, binary, cause⟩, after)
      | (.ok _, after) =>
        let second := fs.write after text (String.ofList l.toText)
        (second.1.mapError (⟨.write, text, ·⟩), second.2) := by
  unfold Listing.write
  rw [run_bind, run_writeFile]
  obtain ⟨result, after⟩ := fs.write d binary l.toBinary
  cases result with
  | ok _ => exact run_writeFile fs text (String.ofList l.toText) after
  | error cause => rfl

theorem run_unread (colour : Bool) (o : Options) {d : Disk} {cause : FileError}
    (h : fs.read d o.input = .error cause) :
    fs.run colour o d = (.ofFault colour ⟨.read, o.input, cause⟩, d) := by
  unfold run Options.run
  rw [run_bind, run_read, source, h]
  rfl

/-- The source at a path can be read, its analysis accepts it, and the listing is the one of that program. -/
inductive Compiles (d : Disk) (path : String) : Listing → Prop where
  | accepted {text : String} {a : Analyzed} (hread : fs.read d path = .ok text)
    (hanalyze : (analyze text.toList .empty).outcome = .ok a) :
    Compiles d path (.generate text.toList standardIndent a)

section
variable {o : Options} {d : Disk} {binary text contents : String}

theorem run_halted (colour : Bool) (htask : o.task = .compile binary text)
    (hread : fs.read d o.input = .ok contents) {halted : Halted}
    (h : (analyze contents.toList .empty).outcome = .error halted) :
    fs.run colour o d = (.ofHalted colour o.format ⟨o.input, contents.toList⟩
      (analyze contents.toList .empty).sink halted, d) := by
  unfold run Options.run
  rw [run_bind, run_read, source, hread]
  simp only [htask]
  unfold compileSource
  simp only [h]
  rfl

theorem run_accepted (colour : Bool) (htask : o.task = .compile binary text)
    (hread : fs.read d o.input = .ok contents) {a : Analyzed}
    (h : (analyze contents.toList .empty).outcome = .ok a) :
    let written := @Listing.write (StateM Disk) _ fs.access
      (.generate contents.toList standardIndent a) binary text d
    fs.run colour o d = (match written.1 with
      | .ok _ => .ofWritten colour o.format ⟨o.input, contents.toList⟩ binary text
      | .error fault => .ofFault colour fault, written.2) := by
  intro written
  unfold run Options.run
  rw [run_bind, run_read, source, hread]
  simp only [htask]
  unfold compileSource
  simp only [h]
  rw [run_bind]
  cases hwritten : written.1 with
  | ok _ => rfl
  | error fault => rfl

end

end FileSystem

theorem Outcome.exitCode_ofWritten (colour : Bool) (format : ReportFormat) (source : SourceFile)
    (binary text : String) : (ofWritten colour format source binary text).exitCode = 0 := by
  cases format <;> rfl

theorem Outcome.exitCode_ofHalted (colour : Bool) (format : ReportFormat) (source : SourceFile)
    (sink : Sink) (halted : Halted) : (ofHalted colour format source sink halted).exitCode = 1 := by
  cases format <;> rfl

/-! ## Compilations -/

/-- How far the writing of a listing comes, with the exit code and the disk at the end. -/
inductive Listing.Writes (l : Listing) (fs : FileSystem) (binary text : String) (d : Disk) :
    Nat → Disk → Prop where
  /-- The binary form cannot be written, and the text form is not attempted. -/
  | refused {cause : FileError} {after : Disk}
    (hbinary : fs.write d binary l.toBinary = (.error cause, after)) : Writes l fs binary text d 1 after
  /-- The binary form is written, and the text form cannot be. -/
  | half {cause : FileError} {between after : Disk}
    (hbinary : fs.write d binary l.toBinary = (.ok (), between))
    (htext : fs.write between text (String.ofList l.toText) = (.error cause, after)) :
    Writes l fs binary text d 1 after
  | both {between after : Disk} (hbinary : fs.write d binary l.toBinary = (.ok (), between))
    (htext : fs.write between text (String.ofList l.toText) = (.ok (), after)) :
    Writes l fs binary text d 0 after

section
variable {fs : FileSystem} {o : Options} {binary text : String} {d after : Disk} {l : Listing}
  {exitCode : Nat}

namespace Listing.Writes

theorem exitCode_eq_zero_iff (h : l.Writes fs binary text d exitCode after) :
    exitCode = 0 ↔ (fs.write d binary l.toBinary).1 = .ok () ∧
      (fs.write (fs.write d binary l.toBinary).2 text (String.ofList l.toText)).1 = .ok () := by
  cases h with
  | refused hbinary => simp [hbinary]
  | half hbinary htext => simp [hbinary, htext]
  | both hbinary htext => simp [hbinary, htext]

theorem exitCode_le_one (h : l.Writes fs binary text d exitCode after) : exitCode ≤ 1 := by
  cases h with
  | refused => exact Nat.le_refl 1
  | half => exact Nat.le_refl 1
  | both => exact Nat.zero_le 1

/-- If the binary form cannot be written, the attempt to do so is all that happens. -/
theorem after_of_refused (h : l.Writes fs binary text d exitCode after)
    (hfirst : (fs.write d binary l.toBinary).1 ≠ .ok ()) : after = (fs.write d binary l.toBinary).2 := by
  cases h with
  | refused hbinary => rw [hbinary]
  | half hbinary => exact absurd (congrArg Prod.fst hbinary) hfirst
  | both hbinary => exact absurd (congrArg Prod.fst hbinary) hfirst

theorem after_of_written (h : l.Writes fs binary text d exitCode after)
    (hfirst : (fs.write d binary l.toBinary).1 = .ok ()) :
    after = (fs.write (fs.write d binary l.toBinary).2 text (String.ofList l.toText)).2 := by
  cases h with
  | refused hbinary =>
    rw [hbinary] at hfirst
    cases hfirst
  | half hbinary htext => rw [hbinary, htext]
  | both hbinary htext => rw [hbinary, htext]

theorem attempts_of_refused (h : l.Writes fs binary text d exitCode after)
    (hfirst : (fs.write d binary l.toBinary).1 ≠ .ok ()) :
    after.attempts = d.attempts ++ [(binary, l.toBinary)] := by
  rw [h.after_of_refused hfirst, fs.write_attempts]

theorem attempts_of_written (h : l.Writes fs binary text d exitCode after)
    (hfirst : (fs.write d binary l.toBinary).1 = .ok ()) :
    after.attempts = d.attempts ++ [(binary, l.toBinary), (text, String.ofList l.toText)] := by
  rw [h.after_of_written hfirst, fs.write_attempts, fs.write_attempts, List.append_assoc]
  rfl

/-- A file that neither path leads to is as it was. -/
theorem untouched (h : l.Writes fs binary text d exitCode after) {place : String}
    (hbinary : place ≠ fs.place binary) (htext : place ≠ fs.place text) :
    after.files place = d.files place := by
  by_cases hfirst : (fs.write d binary l.toBinary).1 = .ok ()
  · rw [h.after_of_written hfirst, fs.write_apart _ _ _ htext, fs.write_apart _ _ _ hbinary]
  · rw [h.after_of_refused hfirst, fs.write_apart _ _ _ hbinary]

theorem text_complete (h : l.Writes fs binary text d 0 after) :
    after.files (fs.place text) = some (String.ofList l.toText) := by
  obtain ⟨hfirst, hsecond⟩ := h.exitCode_eq_zero_iff.1 rfl
  rw [h.after_of_written hfirst, fs.write_replaces hsecond]

section
variable (hplaces : fs.place binary ≠ fs.place text)
include hplaces

theorem text_untouched (h : l.Writes fs binary text d exitCode after)
    (hfirst : (fs.write d binary l.toBinary).1 ≠ .ok ()) :
    after.files (fs.place text) = d.files (fs.place text) := by
  rw [h.after_of_refused hfirst, fs.write_apart _ _ _ hplaces.symm]

/-- What becomes of the text form does not touch the binary file. -/
theorem binary_complete (h : l.Writes fs binary text d exitCode after)
    (hfirst : (fs.write d binary l.toBinary).1 = .ok ()) :
    after.files (fs.place binary) = some l.toBinary := by
  rw [h.after_of_written hfirst, fs.write_apart _ _ _ hplaces, fs.write_replaces hfirst]

end

/-- After a success one file holds both forms only if they are the same. -/
theorem binary_complete_iff (h : l.Writes fs binary text d 0 after)
    (hforms : String.ofList l.toText ≠ l.toBinary) :
    after.files (fs.place binary) = some l.toBinary ↔ fs.place binary ≠ fs.place text := by
  constructor
  · intro hbinary hplaces
    rw [hplaces, h.text_complete] at hbinary
    exact hforms (Option.some.inj hbinary)
  · exact fun hplaces => h.binary_complete hplaces (h.exitCode_eq_zero_iff.1 rfl).1

end Listing.Writes

theorem FileSystem.Compiles.toText_ne_toBinary {path : String} (h : fs.Compiles d path l) :
    String.ofList l.toText ≠ l.toBinary := by
  cases h with
  | accepted => exact Listing.toText_ne_toBinary _ _ _

/-- Without an accepted source nothing is written. -/
theorem FileSystem.run_rejected (colour : Bool) (htask : o.task = .compile binary text)
    (h : ∀ l, ¬ fs.Compiles d o.input l) :
    (fs.run colour o d).1.exitCode = 1 ∧ (fs.run colour o d).2 = d := by
  cases hread : fs.read d o.input with
  | error cause =>
    rw [fs.run_unread colour o hread]
    exact ⟨rfl, rfl⟩
  | ok source =>
    cases houtcome : (analyze source.toList .empty).outcome with
    | error halted =>
      rw [fs.run_halted colour htask hread houtcome]
      exact ⟨Outcome.exitCode_ofHalted _ _ _ _ _, rfl⟩
    | ok a => exact absurd (.accepted hread houtcome) (h _)

theorem FileSystem.Compiles.run_writes (h : fs.Compiles d o.input l) (colour : Bool)
    (htask : o.task = .compile binary text) :
    l.Writes fs binary text d (fs.run colour o d).1.exitCode (fs.run colour o d).2 := by
  obtain ⟨hread, hanalyze⟩ := h
  rw [fs.run_accepted colour htask hread hanalyze, run_write]
  generalize Listing.generate _ _ _ = l
  cases hbinary : fs.write d binary l.toBinary with
  | mk result between =>
    cases result with
    | error cause => exact .refused hbinary
    | ok _ =>
      cases htext : fs.write between text (String.ofList l.toText) with
      | mk result after =>
        cases result with
        | error cause =>
          simp only [htext]
          exact .half hbinary htext
        | ok _ =>
          simp only [htext]
          exact Outcome.exitCode_ofWritten _ _ _ _ _ ▸ .both hbinary htext

/-- A compilation ends with exit code 0 just in case its source can be read, the analysis accepts it and both
files can be written. If the source cannot be read or is not accepted, no write is attempted. Otherwise the
binary form is written first; if that fails, it stays the only write attempted. After a success the file that the
second path leads to holds the text form, and the one that the first path leads to holds the binary form, unless
it is the same file. If the two are different files, a text file whose turn does not come is as it was, and the
binary file is complete once it was written, whatever becomes of the text file. All other files are as they
were. -/
theorem compile_writes_outputs (fs : FileSystem) (colour : Bool) (o : Options) {binary text : String}
    (htask : o.task = .compile binary text) (d : Disk) :
    let exitCode := (fs.run colour o d).1.exitCode
    let after := (fs.run colour o d).2
    let first := fun l : Listing => fs.write d binary l.toBinary
    let second := fun l : Listing => fs.write (first l).2 text (String.ofList l.toText)
    (exitCode = 0 ↔ ∃ l, fs.Compiles d o.input l ∧ (first l).1 = .ok () ∧ (second l).1 = .ok ()) ∧
    exitCode ≤ 1 ∧
    ((∀ l, ¬ fs.Compiles d o.input l) → after = d) ∧
    ∀ l, fs.Compiles d o.input l →
      ((first l).1 ≠ .ok () → after.attempts = d.attempts ++ [(binary, l.toBinary)]) ∧
      ((first l).1 = .ok () →
        after.attempts = d.attempts ++ [(binary, l.toBinary), (text, String.ofList l.toText)]) ∧
      (exitCode = 0 → after.files (fs.place text) = some (String.ofList l.toText) ∧
        (after.files (fs.place binary) = some l.toBinary ↔ fs.place binary ≠ fs.place text)) ∧
      (fs.place binary ≠ fs.place text →
        ((first l).1 ≠ .ok () → after.files (fs.place text) = d.files (fs.place text)) ∧
        ((first l).1 = .ok () → after.files (fs.place binary) = some l.toBinary)) ∧
      ∀ place, place ≠ fs.place binary → place ≠ fs.place text →
        after.files place = d.files place := by
  intro exitCode after first second
  by_cases hsome : ∃ l, fs.Compiles d o.input l
  · obtain ⟨l₀, hl₀⟩ := hsome
    have hwrites : ∀ l, fs.Compiles d o.input l → l.Writes fs binary text d exitCode after :=
      fun l hl => hl.run_writes colour htask
    refine ⟨⟨fun hzero => ⟨l₀, hl₀, (hwrites l₀ hl₀).exitCode_eq_zero_iff.1 hzero⟩, ?_⟩,
      (hwrites l₀ hl₀).exitCode_le_one, fun hnone => absurd hl₀ (hnone l₀), fun l hl => ?_⟩
    · rintro ⟨l, hl, hboth⟩
      exact (hwrites l hl).exitCode_eq_zero_iff.2 hboth
    · have h := hwrites l hl
      refine ⟨h.attempts_of_refused, h.attempts_of_written, fun hzero => ?_,
        fun hplaces => ⟨h.text_untouched hplaces, h.binary_complete hplaces⟩, fun _ => h.untouched⟩
      rw [hzero] at h
      exact ⟨h.text_complete, h.binary_complete_iff hl.toText_ne_toBinary⟩
  · have hnone : ∀ l, ¬ fs.Compiles d o.input l := fun l hl => hsome ⟨l, hl⟩
    obtain ⟨hone, hsame⟩ := FileSystem.run_rejected colour htask hnone
    refine ⟨⟨fun hzero => ?_, ?_⟩, Nat.le_of_eq hone, fun _ => hsame, fun l hl => absurd hl (hnone l)⟩
    · exact absurd (hone.symm.trans hzero) Nat.one_ne_zero
    · rintro ⟨l, hl, -⟩
      exact absurd hl (hnone l)

/-- The name of the file that a path leads to from a folder, by the steps of the path. -/
def FileSystem.placeInFolder (path : String) : String :=
  "/".intercalate ((FileTree.steps path).foldl Location.enter []).reverse

/-- A folder in which a write replaces the file that a path leads to, unless it is refused. -/
def FileSystem.inFolder (refusal? : String → Option FileError) : FileSystem where
  place := placeInFolder
  read d path := match d.files (placeInFolder path) with
    | some text => .ok text
    | none => .error .absent
  refusal? _ path _ := refusal? path
  damaged _ _ _ := some ""

/-- A disk that holds a source and nothing else. -/
def Disk.ofSource (path text : String) : Disk := ⟨fun place => if place = path then some text else none, []⟩

/-- The text form goes to a device without room, and the binary file is complete all the same. -/
theorem compile_writes_outputs_half :
    let fs := FileSystem.inFolder fun path => if path = "full" then some .noRoom else none
    let o : Options := ⟨"in", .compile "out" "full", .human, 0⟩
    let d := Disk.ofSource "in" "let const c ~ 'x' in put(c) endlet"
    (o.task = .compile "out" "full" ∧ fs.place "out" ≠ fs.place "full") ∧
      ∃ l, fs.Compiles d o.input l ∧ (fs.run false o d).1.exitCode = 1 ∧
        (fs.run false o d).2.files (fs.place "out") = some l.toBinary := by
  intro fs o d
  have hplaces : fs.place "out" ≠ fs.place "full" := by decide +kernel
  have hread : fs.read d o.input = .ok "let const c ~ 'x' in put(c) endlet" := by decide +kernel
  have haccepted : (analyze "let const c ~ 'x' in put(c) endlet".toList .empty).outcome.isOk = true := by
    decide +kernel
  cases houtcome : (analyze "let const c ~ 'x' in put(c) endlet".toList .empty).outcome with
  | error halted =>
    rw [houtcome] at haccepted
    exact absurd haccepted Bool.false_ne_true
  | ok a =>
    obtain ⟨hzero, hle, -, hcompiles⟩ := compile_writes_outputs fs false o rfl d
    have hl := FileSystem.Compiles.accepted hread houtcome
    refine ⟨⟨rfl, hplaces⟩, _, hl, ?_, ((hcompiles _ hl).2.2.2.1 hplaces).2 rfl⟩
    have hne : (fs.run false o d).1.exitCode ≠ 0 := fun h => by
      obtain ⟨l, -, -, hsecond⟩ := hzero.1 h
      simp [fs, FileSystem.inFolder, FileSystem.write] at hsecond
    omega

/-- The paths `out` and `./out` lead to one file. The run succeeds, and the file does not hold the binary form,
for the text form was written over it. -/
theorem one_file_two_paths :
    let fs := FileSystem.inFolder fun _ => none
    let o : Options := ⟨"in", .compile "out" "./out", .human, 0⟩
    let d := Disk.ofSource "in" "pass"
    "out" ≠ "./out" ∧ (fs.run false o d).1.exitCode = 0 ∧
      ∃ l, fs.Compiles d o.input l ∧
        (fs.run false o d).2.files (fs.place "out") = some (String.ofList l.toText) ∧
        (fs.run false o d).2.files (fs.place "out") ≠ some l.toBinary := by
  intro fs o d
  have hread : fs.read d o.input = .ok "pass" := by decide +kernel
  have hplaces : fs.place "out" = fs.place "./out" := by decide +kernel
  have haccepted : (analyze "pass".toList .empty).outcome.isOk = true := by decide +kernel
  cases houtcome : (analyze "pass".toList .empty).outcome with
  | error halted =>
    rw [houtcome] at haccepted
    exact absurd haccepted Bool.false_ne_true
  | ok a =>
    have hl := FileSystem.Compiles.accepted hread houtcome
    have h := hl.run_writes (o := o) false rfl
    have hzero : (fs.run false o d).1.exitCode = 0 := h.exitCode_eq_zero_iff.2 ⟨rfl, rfl⟩
    rw [hzero] at h
    have htext := h.text_complete
    rw [← hplaces] at htext
    refine ⟨by decide, hzero, _, hl, htext, fun hbinary => ?_⟩
    exact (h.binary_complete_iff hl.toText_ne_toBinary).1 hbinary hplaces

end

end TriLang
