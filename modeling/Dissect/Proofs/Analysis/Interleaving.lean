import Mathlib
import Dissect.Analysis.Schedule

/-!
What runs tell that go on side by side.

A schedule merges what runs tell into one of their interleavings, and each interleaving comes from a
schedule. What one run tells can be read off an interleaving again, if there is a way to tell its
events from those of the others.
-/

namespace Dissect

variable {α : Type}

/-- The orders in which runs can take their steps: each time, any run that is not over goes on. -/
inductive Interleaves : List (List α) → List α → Prop
  | done {runs : List (List α)} (ended : ∀ run ∈ runs, run = []) : Interleaves runs []
  | step {runs : List (List α)} {k : ℕ} {event : α} {rest log : List α}
      (next : runs[k]? = some (event :: rest)) (later : Interleaves (runs.set k rest) log) :
      Interleaves runs (event :: log)

/-! ### Interleavings and schedules -/

/-- A run that is over may stand in front. -/
lemma Interleaves.cons_nil {runs : List (List α)} {log : List α} (h : Interleaves runs log) :
    Interleaves ([] :: runs) log := by
  induction h with
  | done ended => exact .done (List.forall_mem_cons.mpr ⟨rfl, ended⟩)
  | @step runs k event rest log next later ih => exact .step (k := k + 1) next ih

/-- Runs can be finished one by one. -/
lemma interleaves_flatten (runs : List (List α)) : Interleaves runs runs.flatten := by
  induction runs with
  | nil => exact .done (by simp)
  | cons run runs ih =>
    induction run with
    | nil => exact ih.cons_nil
    | cons event rest ihrest => exact .step (k := 0) rfl ihrest

/-- A schedule yields an interleaving. -/
lemma interleaves_merge (schedule : Schedule) (runs : List (List α)) :
    Interleaves runs (schedule.merge runs) := by
  induction schedule generalizing runs with
  | nil => exact interleaves_flatten runs
  | cons k schedule ih =>
    rw [Schedule.merge]
    split
    · next event rest hnext => exact .step hnext (ih _)
    · exact ih runs

/-- Nothing is told but by one of the runs. -/
lemma Interleaves.exists_of_mem {runs : List (List α)} {log : List α} (h : Interleaves runs log)
    {event : α} (hevent : event ∈ log) : ∃ run ∈ runs, event ∈ run := by
  induction h with
  | done => cases hevent
  | step next later ih =>
    have hrun := List.mem_of_getElem? next
    rcases List.mem_cons.mp hevent with rfl | hlater
    · exact ⟨_, hrun, List.mem_cons_self⟩
    · obtain ⟨run, hmem, hin⟩ := ih hlater
      rcases List.mem_or_eq_of_mem_set hmem with hold | rfl
      · exact ⟨run, hold, hin⟩
      · exact ⟨_, hrun, List.mem_cons_of_mem _ hin⟩

/-- Leaving out events of an interleaving leaves them out of the runs. -/
lemma Interleaves.filter {runs : List (List α)} {log : List α} (h : Interleaves runs log)
    (p : α → Bool) : Interleaves (runs.map (List.filter p)) (log.filter p) := by
  induction h with
  | done ended =>
    refine .done fun run hrun => ?_
    obtain ⟨whole, hwhole, rfl⟩ := List.mem_map.mp hrun
    rw [ended whole hwhole, List.filter_nil]
  | @step runs k event rest log next later ih =>
    rw [List.map_set] at ih
    have hnext : (runs.map (List.filter p))[k]? = some ((event :: rest).filter p) := by
      rw [List.getElem?_map, next, Option.map_some]
    by_cases hp : p event
    · rw [List.filter_cons_of_pos hp] at hnext ⊢
      exact .step hnext ih
    · -- the event is left out, so the run stands where it stood before
      rw [List.filter_cons_of_neg hp] at hnext ⊢
      obtain ⟨hlength, hrest⟩ := List.getElem?_eq_some_iff.mp hnext
      rwa [← hrest, List.set_getElem_self hlength] at ih

/-- If all runs but one are over, that one goes on alone. -/
lemma Interleaves.eq_of_others_nil {runs : List (List α)} {log run : List α} {k : ℕ}
    (h : Interleaves runs log) (hrun : runs[k]? = some run)
    (hothers : ∀ j other, j ≠ k → runs[j]? = some other → other = []) : log = run := by
  induction h generalizing run with
  | done ended => exact (ended run (List.mem_of_getElem? hrun)).symm
  | @step runs j event rest log next later ih =>
    obtain rfl : j = k := by
      by_contra hne
      cases hothers j _ hne next
    obtain rfl : event :: rest = run := Option.some.inj (next.symm.trans hrun)
    have hlength : j < runs.length := (List.getElem?_eq_some_iff.mp next).1
    rw [ih (List.getElem?_set_self hlength) fun i other hne hother =>
      hothers i other hne (by rwa [List.getElem?_set_ne hne.symm] at hother)]

/-- The events of one run, if they can be told from all others, are told in the order of the run. -/
lemma Interleaves.filter_eq {runs : List (List α)} {log run : List α} {k : ℕ} {p : α → Bool}
    (h : Interleaves runs log) (hrun : runs[k]? = some run) (hown : ∀ event ∈ run, p event)
    (hothers : ∀ j other, j ≠ k → runs[j]? = some other → ∀ event ∈ other, ¬p event) :
    log.filter p = run := by
  have hkept : (runs.map (List.filter p))[k]? = some run := by
    rw [List.getElem?_map, hrun, Option.map_some, List.filter_eq_self.mpr hown]
  refine (h.filter p).eq_of_others_nil hkept fun j other hne hother => ?_
  rw [List.getElem?_map, Option.map_eq_some_iff] at hother
  obtain ⟨whole, hwhole, rfl⟩ := hother
  exact List.filter_eq_nil_iff.mpr (hothers j whole hne hwhole)

end Dissect
