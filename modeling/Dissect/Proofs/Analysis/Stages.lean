import Mathlib
import Dissect.Analysis.File
import Dissect.Proofs.Code.LinearSweep

/-!
The ways in which the analysis of a file can end.

The analysis stops at a file that cannot be read, at an unknown format and at a file that the parser
refuses; otherwise it goes through. Each of these ends fixes three things at once: what is kept of
the file, why there is no more of it, and what was told on the way. A program that checks its sums
has one more end, at code that passes the largest address, and then keeps nothing.
-/

namespace Dissect.FileAnalysis

variable {overflow : Overflow} {settings : Settings} {disk : Disk} {path : String} {data : Bytes}
  {image : Image}

/-- The stages of the analysis of a file, in order. -/
def stages : List Stage :=
  [.detect, .parse, .strings, .disassembly, .controlFlow, .apiCalls, .deobfuscation]

/-! ### The five ends -/

lemma runIn_of_unreadable {failure : Failure}
    (hopen : disk.open path settings.limits.maxFileSize = .error failure) :
    runIn overflow settings disk path =
      (some { path, halt := some (.unreadable failure) },
        [.started path, .failed path .detect failure.message]) := by
  unfold runIn Pipeline.ofFile
  rw [hopen]
  rfl

lemma runIn_of_unknown (hopen : disk.open path settings.limits.maxFileSize = .ok data)
    (hformat : Format.detect data = .unknown) :
    runIn overflow settings disk path =
      (some { path, size := data.length, halt := some .unknownFormat },
        [.started path, .failed path .detect Halt.unknownFormat.message]) := by
  unfold runIn Pipeline.ofFile
  simp only [hopen, pure_bind, hformat, if_true]
  rfl

lemma runIn_of_unparsable {e : ParseError}
    (hopen : disk.open path settings.limits.maxFileSize = .ok data)
    (hformat : Format.detect data ≠ .unknown)
    (hparse : Image.parseAs (Format.detect data) data = .error e) :
    runIn overflow settings disk path =
      (some { path, size := data.length, format := Format.detect data,
              halt := some (.unparsable (.ofParseError e)) },
        [.started path, .stageDone path .detect,
          .failed path .parse (Failure.ofParseError e).message]) := by
  unfold runIn Pipeline.ofFile
  simp only [hopen, pure_bind, if_neg hformat, hparse]
  rfl

/-- There are no images of an unknown format. -/
lemma detect_ne_unknown (hparse : Image.parseAs (Format.detect data) data = .ok image) :
    Format.detect data ≠ .unknown := by
  intro h
  rw [h] at hparse
  cases hparse

lemma runIn_of_overflow (hopen : disk.open path settings.limits.maxFileSize = .ok data)
    (hparse : Image.parseAs (Format.detect data) data = .ok image)
    (hcode : overflow = .aborts ∧ Sweep.overflowsIn settings.sweep data image) :
    runIn overflow settings disk path =
      (none, .started path :: (stages.take 3).map (.stageDone path)) := by
  unfold runIn Pipeline.ofFile
  simp only [hopen, pure_bind, if_neg (detect_ne_unknown hparse), hparse, if_pos hcode]
  rfl

lemma runIn_of_image (hopen : disk.open path settings.limits.maxFileSize = .ok data)
    (hparse : Image.parseAs (Format.detect data) data = .ok image)
    (hcode : ¬(overflow = .aborts ∧ Sweep.overflowsIn settings.sweep data image)) :
    runIn overflow settings disk path =
      let strings := Strings.values settings.texts data (some image)
      let functions := (Sweep.ofImage settings.sweep data image).map Function.withGraph
      (some {
          path
          size := data.length
          format := Format.detect data
          image := some image
          strings
          occurrences := Strings.occurrences settings.texts data
          functions
          calls := Call.inFunctions SignatureTable.usual settings.calls.lookback functions
          deobfuscation := some (Deobfuscation.run settings.obfuscation
            (Technique.usual settings.obfuscation) { image, strings, functions }) },
        .started path :: stages.map (.stageDone path) ++
          [.completed path functions.length strings.length]) := by
  unfold runIn Pipeline.ofFile
  simp only [hopen, pure_bind, if_neg (detect_ne_unknown hparse), hparse, if_neg hcode]
  rfl

/-! ### The course of an analysis -/

/-- Nothing is kept of what stands in a file, but why its analysis stopped. -/
structure StoppedBy (path : String) (halt : Halt) (a : FileAnalysis) : Prop where
  path : a.path = path
  halt : a.halt = some halt
  image : a.image = none
  strings : a.strings = []
  occurrences : a.occurrences = []
  functions : a.functions = []
  calls : a.calls = []
  deobfuscation : a.deobfuscation = none

/-- All is kept that the stages find. -/
structure WentThrough (settings : Settings) (path : String) (data : Bytes) (image : Image)
    (a : FileAnalysis) : Prop where
  path : a.path = path
  halt : a.halt = none
  size : a.size = data.length
  format : a.format = Format.detect data
  parsed : a.image = some image
  strings : a.strings = Strings.values settings.texts data (some image)
  occurrences : a.occurrences = Strings.occurrences settings.texts data
  functions : a.functions = (Sweep.ofImage settings.sweep data image).map Function.withGraph
  graphs : ∀ f ∈ a.functions, f.graph = some (.build f.start f.instructions)
  calls : a.calls = Call.inFunctions SignatureTable.usual settings.calls.lookback a.functions
  deobfuscation : a.deobfuscation = some (Deobfuscation.run settings.obfuscation
    (Technique.usual settings.obfuscation)
    { image, strings := a.strings, functions := a.functions })

/-- The courses that the analysis of a file can take: what is the matter with the file, what is kept
of it and what is told. -/
inductive Course (overflow : Overflow) (settings : Settings) (disk : Disk) (path : String) :
    Option FileAnalysis → List Event → Prop
  /-- The file cannot be read, or its format is unknown. -/
  | undetected {a : FileAnalysis} {halt : Halt}
      (cause : (∃ failure, disk.open path settings.limits.maxFileSize = .error failure ∧
          halt = .unreadable failure) ∨
        ∃ data, disk.open path settings.limits.maxFileSize = .ok data ∧
          Format.detect data = .unknown ∧ halt = .unknownFormat)
      (stage : halt.stage = .detect) (kept : a.StoppedBy path halt) :
      Course overflow settings disk path (some a)
        [.started path, .failed path .detect halt.message]
  /-- The file has a format, but cannot be parsed. -/
  | unparsed {a : FileAnalysis} {halt : Halt}
      (cause : ∃ data e, disk.open path settings.limits.maxFileSize = .ok data ∧
        Format.detect data ≠ .unknown ∧ Image.parseAs (Format.detect data) data = .error e ∧
          halt = .unparsable (.ofParseError e))
      (stage : halt.stage = .parse) (kept : a.StoppedBy path halt) :
      Course overflow settings disk path (some a)
        [.started path, .stageDone path .detect, .failed path .parse halt.message]
  /-- The file goes through all stages. -/
  | completed {a : FileAnalysis} {data : Bytes} {image : Image}
      (file : disk.open path settings.limits.maxFileSize = .ok data)
      (parsed : Image.parseAs (Format.detect data) data = .ok image)
      (kept : a.WentThrough settings path data image) :
      Course overflow settings disk path (some a) (.started path :: stages.map (.stageDone path) ++
        [.completed path a.functions.length a.strings.length])
  /-- The program ends at code that passes the largest address. -/
  | aborted {data : Bytes} {image : Image} (build : overflow = .aborts)
      (file : disk.open path settings.limits.maxFileSize = .ok data)
      (parsed : Image.parseAs (Format.detect data) data = .ok image)
      (code : Sweep.overflowsIn settings.sweep data image)
      (beyond : ∃ s ∈ image.codeSections,
        2 ^ 64 ≤ (image.imageBase + s.virtualAddress).toNat + (s.data data).length) :
      Course overflow settings disk path none
        [.started path, .stageDone path .detect, .stageDone path .parse, .stageDone path .strings]

lemma exists_beyond (hcode : Sweep.overflowsIn settings.sweep data image) :
    ∃ s ∈ image.codeSections,
      2 ^ 64 ≤ (image.imageBase + s.virtualAddress).toNat + (s.data data).length := by
  by_contra! hfit
  rw [Sweep.overflowsIn_eq_false settings.sweep hfit] at hcode
  cases hcode

lemma course_runIn (overflow : Overflow) (settings : Settings) (disk : Disk) (path : String) :
    Course overflow settings disk path (runIn overflow settings disk path).1
      (runIn overflow settings disk path).2 := by
  rcases hopen : disk.open path settings.limits.maxFileSize with failure | data
  · rw [runIn_of_unreadable hopen]
    exact .undetected (.inl ⟨failure, hopen, rfl⟩) rfl ⟨rfl, rfl, rfl, rfl, rfl, rfl, rfl, rfl⟩
  by_cases hformat : Format.detect data = .unknown
  · rw [runIn_of_unknown hopen hformat]
    exact .undetected (.inr ⟨data, hopen, hformat, rfl⟩) rfl
      ⟨rfl, rfl, rfl, rfl, rfl, rfl, rfl, rfl⟩
  rcases hparse : Image.parseAs (Format.detect data) data with e | image
  · rw [runIn_of_unparsable hopen hformat hparse]
    exact .unparsed ⟨data, e, hopen, hformat, hparse, rfl⟩ rfl
      ⟨rfl, rfl, rfl, rfl, rfl, rfl, rfl, rfl⟩
  by_cases hcode : overflow = .aborts ∧ Sweep.overflowsIn settings.sweep data image
  · rw [runIn_of_overflow hopen hparse hcode]
    exact .aborted hcode.1 hopen hparse hcode.2 (exists_beyond hcode.2)
  · rw [runIn_of_image hopen hparse hcode]
    refine .completed hopen hparse
      ⟨rfl, rfl, rfl, rfl, rfl, rfl, rfl, rfl, fun f hf => ?_, rfl, rfl⟩
    obtain ⟨g, -, rfl⟩ := List.mem_map.mp hf
    rfl

namespace Course

variable {a : Option FileAnalysis} {log : List Event}

/-- All that is told during the analysis of a file is about that file. -/
lemma path?_of_mem (h : Course overflow settings disk path a log) {e : Event} (he : e ∈ log) :
    e.path? = some path := by
  cases h with
  | undetected => fin_cases he <;> rfl
  | unparsed => fin_cases he <;> rfl
  | completed => fin_cases he <;> rfl
  | aborted => fin_cases he <;> rfl

/-- Libraries are no stage of a file. -/
lemma ne_dependencies (h : Course overflow settings disk path a log) {e : Event} (he : e ∈ log)
    (path' : String) : e ≠ .stageDone path' .dependencies := by
  cases h with
  | undetected => fin_cases he <;> simp
  | unparsed => fin_cases he <;> simp
  | completed => fin_cases he <;> simp
  | aborted => fin_cases he <;> simp

lemma path_eq {a : FileAnalysis} (h : Course overflow settings disk path (some a) log) :
    a.path = path := by
  cases h with
  | undetected _ _ kept => exact kept.path
  | unparsed _ _ kept => exact kept.path
  | completed _ _ kept => exact kept.path

/-- An analysis succeeds exactly if there is an image. -/
lemma isSuccess_eq {a : FileAnalysis} (h : Course overflow settings disk path (some a) log) :
    a.isSuccess = a.image.isSome := by
  unfold isSuccess
  cases h with
  | undetected _ _ kept => simp [kept.halt, kept.image]
  | unparsed _ _ kept => simp [kept.halt, kept.image]
  | completed _ _ kept => simp [kept.halt, kept.parsed]

/-- The image that is kept of a file is the one that is parsed. -/
lemma exists_parseAs {a : FileAnalysis} (h : Course overflow settings disk path (some a) log)
    (himage : a.image = some image) :
    ∃ data, disk.open path settings.limits.maxFileSize = .ok data ∧
      Image.parseAs (Format.detect data) data = .ok image := by
  cases h with
  | undetected _ _ kept =>
    rw [kept.image] at himage
    cases himage
  | unparsed _ _ kept =>
    rw [kept.image] at himage
    cases himage
  | completed file parsed kept =>
    rw [kept.parsed] at himage
    cases himage
    exact ⟨_, file, parsed⟩

end Course

/-! ### Programs built one way and the other -/

/-- A program that does not check its sums does not end with a file. -/
lemma runIn_wraps (settings : Settings) (disk : Disk) (path : String) :
    runIn .wraps settings disk path =
      (some (ofFile settings disk path), (run settings disk path).2) := by
  have hcourse := course_runIn .wraps settings disk path
  unfold ofFile run
  rcases hrun : runIn .wraps settings disk path with ⟨_ | a, log⟩
  · rw [hrun] at hcourse
    cases hcourse with
    | aborted build => cases build
  · rfl

lemma course_run (settings : Settings) (disk : Disk) (path : String) :
    Course .wraps settings disk path (some (ofFile settings disk path))
      (run settings disk path).2 := by
  have h := course_runIn .wraps settings disk path
  rwa [runIn_wraps] at h

@[simp] lemma path_ofFile (settings : Settings) (disk : Disk) (path : String) :
    (ofFile settings disk path).path = path :=
  (course_run settings disk path).path_eq

lemma isSuccess_ofFile (settings : Settings) (disk : Disk) (path : String) :
    (ofFile settings disk path).isSuccess = (ofFile settings disk path).image.isSome :=
  (course_run settings disk path).isSuccess_eq

end Dissect.FileAnalysis
