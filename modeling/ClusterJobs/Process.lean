/-
This file models a child process as `subprocess.Popen` and `/proc` show it to its parent. A
process that has ended stays visible under `/proc` until its parent waits for it; `poll` does
that and reports the exit status, the same one on every later call.
-/

import Mathlib.Tactic.Common

namespace Python

/-- Where a child process stands: still running, ended by itself and not yet waited for, waited
for, or ended on the order of its coordinator. -/
inductive Phase
  | running
  | zombie (status : Int)
  | reaped (status : Int)
  | killed
  deriving DecidableEq, Repr

namespace Phase

/-- The process ends by itself. -/
def exit (status : Int) : Phase → Phase
  | running => zombie status
  | phase => phase

/-- The process is killed. -/
def kill : Phase → Phase
  | running => killed
  | phase => phase

/-- The value of `poll()`: `None` while the process runs. A killed process reports the signal. -/
def poll : Phase → Option Int
  | running => none
  | zombie status => some status
  | reaped status => some status
  | killed => some (-9)

/-- The process after `poll()`. -/
def afterPoll : Phase → Phase
  | zombie status => reaped status
  | phase => phase

/-- Whether `/proc/<pid>` exists. -/
def inProc : Phase → Bool
  | running => true
  | zombie _ => true
  | reaped _ => false
  | killed => false

/-- The exit status of a process that ended by itself. -/
def exitStatus : Phase → Option Int
  | zombie status => some status
  | reaped status => some status
  | _ => none

/-- A later phase of the same process while nobody kills it: an exit status stays what it is,
and what has left `/proc` does not come back. -/
structure Settles (before after : Phase) : Prop where
  exited : ∀ status, before.exitStatus = some status → after.exitStatus = some status
  killed : before = .killed ↔ after = .killed
  gone : before.inProc = false → after.inProc = false

theorem settles_refl (phase : Phase) : Settles phase phase :=
  ⟨fun _ exited => exited, Iff.rfl, fun gone => gone⟩

theorem Settles.trans {first second third : Phase} (before : Settles first second)
    (after : Settles second third) : Settles first third :=
  ⟨fun status exited => after.exited status (before.exited status exited),
    before.killed.trans after.killed, fun gone => after.gone (before.gone gone)⟩

theorem settles_exit (phase : Phase) (status : Int) : Settles phase (phase.exit status) := by
  cases phase <;> constructor <;> simp [exit, exitStatus, inProc]

theorem settles_afterPoll (phase : Phase) : Settles phase phase.afterPoll := by
  cases phase <;> constructor <;> simp [afterPoll, exitStatus, inProc]

/-- A process that has ended does not run again. -/
theorem Settles.running {before after : Phase} (settles : Settles before after)
    (running : after = .running) : before = .running := by
  cases before with
  | running => rfl
  | zombie status => exact absurd (settles.exited status rfl) (by simp [running, exitStatus])
  | reaped status => exact absurd (settles.exited status rfl) (by simp [running, exitStatus])
  | killed => exact absurd (settles.killed.mp rfl) (by simp [running])

end Phase

end Python
