/-!
Runs that go on side by side.

Each run tells its own events in order. Which of the runs goes on next is left open, so what is told
by all of them depends on a schedule.
-/

namespace Dissect

/-- The order in which runs take their steps: for each step, the number of the run that goes on. -/
abbrev Schedule := List Nat

/-- What runs tell when they take their steps in the order of a schedule. A run that is over is
passed over, and after the end of the schedule the runs are finished one by one. -/
def Schedule.merge {α : Type} : Schedule → List (List α) → List α
  | [], runs => runs.flatten
  | k :: schedule, runs =>
    match runs[k]? with
    | some (event :: rest) => event :: merge schedule (runs.set k rest)
    | _ => merge schedule runs

end Dissect
