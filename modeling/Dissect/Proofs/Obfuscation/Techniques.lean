import Mathlib
import Dissect.Obfuscation.Deobfuscation

/-!
What techniques leave behind.

A run of techniques is told by its entries: which technique was applied to which findings, and what
came out. The findings of an entry are those of the file, with the texts and the functions each
replaced by the latest ones that a successful entry before it has given. An entry that did not
succeed gives nothing, so the run without its technique differs from the run with it in that entry
alone.
-/

namespace Dissect.Deobfuscation

/-- A technique, the findings it was applied to, and what came out. -/
structure Entry where
  technique : Technique
  view : Findings
  outcome : Outcome

/-- The last replacement of a part that a successful entry has given. -/
def latest {α : Type} (part : Improvement → Option α) (entries : List Entry) : Option α :=
  (entries.filterMap fun e =>
    if e.outcome.step.success then part e.outcome.improved else none).getLast?

/-- The findings of a file with the latest replacements in place. -/
def viewAfter (x : Findings) (entries : List Entry) : Findings where
  image := x.image
  strings := (latest (·.strings) entries).getD x.strings
  functions := (latest (·.functions) entries).getD x.functions

/-- The entry of a technique after those before it. -/
def entryAfter (x : Findings) (entries : List Entry) (t : Technique) : Entry where
  technique := t
  view := viewAfter x entries
  outcome := t.apply (viewAfter x entries)

/-- The entries of techniques: one for each that is for something detected, in their order. -/
structure IsTrace (detected : List Obfuscation) (x : Findings) (techniques : List Technique)
    (entries : List Entry) : Prop where
  techniques : entries.map (·.technique) = techniques.filter (·.handles ∈ detected)
  entry : ∀ before e after, entries = before ++ e :: after → e = entryAfter x before e.technique

/-- The latest replacements. -/
def improvement (entries : List Entry) : Improvement where
  strings := latest (·.strings) entries
  functions := latest (·.functions) entries

/-- What is told of entries in the end. -/
def report (detected : List Obfuscation) (entries : List Entry) : Deobfuscation where
  detected := detected
  steps := entries.map (·.outcome.step)
  improved := improvement entries

variable {detected : List Obfuscation} {x : Findings} {ts : List Technique} {t : Technique}
  {es es' : List Entry} {e : Entry}

lemma latest_append_of_success {α : Type} {part : Improvement → Option α}
    (h : e.outcome.step.success = true) :
    latest part (es ++ [e]) = (part e.outcome.improved).or (latest part es) := by
  rw [latest, List.filterMap_append, List.getLast?_append]
  rcases hpart : part e.outcome.improved with _ | a <;> simp [h, hpart, latest]

lemma latest_append_of_failure {α : Type} {part : Improvement → Option α}
    (h : e.outcome.step.success = false) : latest part (es ++ [e]) = latest part es := by
  simp [latest, h]

/-- One more entry: merged if it succeeded, and otherwise nothing. -/
lemma improvement_append : improvement (es ++ [e]) =
    if e.outcome.step.success then (improvement es).merge e.outcome.improved
    else improvement es := by
  cases h : e.outcome.step.success with
  | false => simp [improvement, latest_append_of_failure h]
  | true => simp [improvement, latest_append_of_success h, Improvement.merge]

/-! ### The run -/

/-- The entries with that of one more technique. -/
def extend (x : Findings) (es : List Entry) (t : Technique) : List Entry :=
  es ++ [entryAfter x es t]

lemma applyTechnique_eq : applyTechnique x (es.map (·.outcome.step), improvement es) t =
    ((extend x es t).map (·.outcome.step), improvement (extend x es t)) := by
  rw [extend, improvement_append, List.map_append]
  rfl

lemma foldl_applyTechnique (es : List Entry) (ts : List Technique) :
    ts.foldl (applyTechnique x) (es.map (·.outcome.step), improvement es) =
      ((ts.foldl (extend x) es).map (·.outcome.step), improvement (ts.foldl (extend x) es)) := by
  induction ts generalizing es with
  | nil => rfl
  | cons t ts ih => rw [List.foldl_cons, List.foldl_cons, applyTechnique_eq, ih]

/-- The entries of a run. -/
def entries (detected : List Obfuscation) (x : Findings) (ts : List Technique) : List Entry :=
  (ts.filter (·.handles ∈ detected)).foldl (extend x) []

lemma run_eq_report (settings : ObfuscationSettings) (ts : List Technique) (x : Findings) :
    run settings ts x =
      report (Probe.detect settings x) (entries (Probe.detect settings x) x ts) := by
  have hhandled : (ts.filter fun t => (Probe.detect settings x).contains t.handles) =
      ts.filter (·.handles ∈ Probe.detect settings x) := by simp
  have hfold : (ts.filter (·.handles ∈ Probe.detect settings x)).foldl (applyTechnique x)
      ([], {}) = ((entries (Probe.detect settings x) x ts).map (·.outcome.step),
        improvement (entries (Probe.detect settings x) x ts)) :=
    foldl_applyTechnique [] _
  simp only [run, hhandled, hfold, report]

/-- The entry of a technique, if it is for something detected. -/
def own (detected : List Obfuscation) (x : Findings) (es : List Entry) (t : Technique) :
    List Entry :=
  if t.handles ∈ detected then [entryAfter x es t] else []

lemma entries_append (ts later : List Technique) : entries detected x (ts ++ later) =
    (later.filter (·.handles ∈ detected)).foldl (extend x) (entries detected x ts) := by
  rw [entries, List.filter_append, List.foldl_append, entries]

lemma entries_append_singleton : entries detected x (ts ++ [t]) =
    entries detected x ts ++ own detected x (entries detected x ts) t := by
  rw [entries_append, own]
  by_cases h : t.handles ∈ detected <;> simp [h, extend]

lemma isTrace_nil : IsTrace detected x [] [] where
  techniques := rfl
  entry before e after h := by simp at h

lemma IsTrace.snoc (h : IsTrace detected x ts es) :
    IsTrace detected x (ts ++ [t]) (es ++ own detected x es t) := by
  by_cases hhandles : t.handles ∈ detected
  · rw [own, if_pos hhandles]
    refine ⟨by simp [h.techniques, hhandles, entryAfter], fun before e after heq => ?_⟩
    rcases List.eq_nil_or_concat after with rfl | ⟨after, e', rfl⟩
    · -- the new entry
      obtain ⟨rfl, hlast⟩ := List.append_inj' heq rfl
      obtain rfl := List.singleton_inj.mp hlast
      rfl
    · rw [List.concat_eq_append, ← List.cons_append, ← List.append_assoc] at heq
      exact h.entry before e after (List.append_inj' heq rfl).1
  · rw [own, if_neg hhandles, List.append_nil]
    exact ⟨by simp [h.techniques, hhandles], h.entry⟩

lemma isTrace_entries (detected : List Obfuscation) (x : Findings) (ts : List Technique) :
    IsTrace detected x ts (entries detected x ts) := by
  induction ts using List.reverseRecOn with
  | nil => exact isTrace_nil
  | append_singleton ts t ih =>
    rw [entries_append_singleton]
    exact ih.snoc

/-! ### A run without a technique -/

/-- The later entries depend on the earlier ones by their replacements only. -/
lemma exists_foldl_extend (ts : List Technique) (h : improvement es = improvement es') :
    ∃ fs, ts.foldl (extend x) es = es ++ fs ∧ ts.foldl (extend x) es' = es' ++ fs ∧
      improvement (es ++ fs) = improvement (es' ++ fs) := by
  induction ts generalizing es es' with
  | nil => exact ⟨[], by simp, by simp, by simpa using h⟩
  | cons t ts ih =>
    have hentry : entryAfter x es t = entryAfter x es' t := by
      have hview : viewAfter x es = viewAfter x es' :=
        show (improvement es).overlay x = (improvement es').overlay x by rw [h]
      rw [entryAfter, entryAfter, hview]
    have hnext : improvement (extend x es t) = improvement (extend x es' t) := by
      rw [extend, extend, improvement_append, improvement_append, hentry, h]
    obtain ⟨fs, hes, hes', himproved⟩ := ih hnext
    refine ⟨entryAfter x es t :: fs, ?_, ?_, ?_⟩
    · rw [List.foldl_cons, hes, extend, List.append_assoc, List.singleton_append]
    · rw [List.foldl_cons, hes', extend, List.append_assoc, List.singleton_append, hentry]
    · simpa [extend, hentry] using himproved

/-- A technique that is for nothing detected, or that does not succeed, gives nothing. -/
lemma improvement_append_own
    (h : t.handles ∉ detected ∨ (t.apply (viewAfter x es)).step.success = false) :
    improvement (es ++ own detected x es t) = improvement es := by
  by_cases hhandles : t.handles ∈ detected
  · have hfailure : (entryAfter x es t).outcome.step.success = false :=
      h.resolve_left (not_not.mpr hhandles)
    rw [own, if_pos hhandles, improvement_append, hfailure]
    rfl
  · rw [own, if_neg hhandles, List.append_nil]

/-- **A technique that does not succeed leaves no trace.** The steps of a run are those of the
techniques for what was detected, in their order, each applied to the findings with the latest
replacements before it; and a technique that is for nothing detected, or that does not succeed on
the findings it is given, can be left out: only its own step goes. -/
theorem run_without_failure (settings : ObfuscationSettings) (x : Findings)
    (techniques : List Technique) : ∃ entries,
    IsTrace (Probe.detect settings x) x techniques entries ∧
    run settings techniques x = report (Probe.detect settings x) entries ∧
    ∀ before t after, techniques = before ++ t :: after →
      ∃ es, IsTrace (Probe.detect settings x) x before es ∧
        (t.handles ∉ Probe.detect settings x ∨
            (t.apply (viewAfter x es)).step.success = false →
          ∃ fs, entries = es ++ own (Probe.detect settings x) x es t ++ fs ∧
            run settings (before ++ after) x =
              { run settings techniques x with steps := (es ++ fs).map (·.outcome.step) }) := by
  refine ⟨_, isTrace_entries _ x techniques, run_eq_report settings techniques x, ?_⟩
  rintro before t after rfl
  refine ⟨_, isTrace_entries _ x before, fun hfailure => ?_⟩
  obtain ⟨fs, hwith, hwithout, himproved⟩ := exists_foldl_extend (x := x)
    (after.filter (·.handles ∈ Probe.detect settings x)) (improvement_append_own hfailure)
  rw [← entries_append_singleton, ← entries_append, List.append_assoc, List.singleton_append,
    entries_append_singleton] at hwith
  rw [← entries_append] at hwithout
  refine ⟨fs, hwith, ?_⟩
  rw [run_eq_report, run_eq_report, hwith, hwithout, report, report, himproved]

/-- Gives new texts for a packed file, but does not succeed. -/
def rejecting : Technique where
  name := "Rejecting"
  handles := .packing
  apply _ :=
    { step := { technique := "Rejecting", description := "Takes the texts away" }
      improved := { strings := some [] } }

theorem run_without_failure_rejecting :
    let x : Findings := ⟨{ packed := true }, ["text"], []⟩
    let d := run {} [rejecting, .unpacking] x
    rejecting.handles ∈ Probe.detect {} x ∧ d.steps.map (·.success) = [false, true] ∧
      ∃ steps, run {} [.unpacking] x = { d with steps } := by
  intro x d
  refine ⟨by decide +kernel, by decide +kernel, ?_⟩
  obtain ⟨entries, -, -, hwithout⟩ := run_without_failure {} x [rejecting, .unpacking]
  obtain ⟨es, -, hfailure⟩ := hwithout [] rejecting [.unpacking] rfl
  obtain ⟨fs, -, hrun⟩ := hfailure (.inr rfl)
  exact ⟨_, hrun⟩

end Dissect.Deobfuscation
