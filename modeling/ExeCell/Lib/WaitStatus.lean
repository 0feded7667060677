import Mathlib.Data.Nat.Basic

/-!
# Wait statuses

The status word that `waitpid` stores, as Linux encodes it, and the macros of
`<sys/wait.h>` that take it apart. The word is read as an unsigned 32-bit number.
-/

namespace WaitStatus

/-- `WTERMSIG`: the low seven bits. -/
def termSig (status : Nat) : Nat := status % 128

/-- `WEXITSTATUS`, which is also `WSTOPSIG`: the second byte. -/
def exitStatus (status : Nat) : Nat := status / 256 % 256

/-- `WIFEXITED`. -/
def ifExited (status : Nat) : Bool := termSig status = 0

/-- `WIFSIGNALED`: `((signed char)((status & 0x7f) + 1) >> 1) > 0`, which excludes
`0` and `0x7f`. -/
def ifSignaled (status : Nat) : Bool := 0 < termSig status && termSig status < 127

/-- `WIFSTOPPED`. -/
def ifStopped (status : Nat) : Bool := status % 256 = 127

/-- The status of a process that called `_exit(code)`. -/
def ofExit (code : Nat) : Nat := code % 256 * 256

/-- The status of a process killed by `signal`. -/
def ofSignal (signal : Nat) : Nat := signal % 128

/-- The status of a task stopped with stop signal `signal`; `event` is the ptrace
event, `0` when there is none. -/
def ofStop (event signal : Nat) : Nat := event * 65536 + signal % 256 * 256 + 127

theorem ifExited_ofExit (code : Nat) : ifExited (ofExit code) = true := by
  rw [ifExited, decide_eq_true_eq, termSig, ofExit]
  omega

theorem exitStatus_ofExit (code : Nat) : exitStatus (ofExit code) = code % 256 := by
  simp only [exitStatus, ofExit]
  omega

theorem ifExited_ofSignal {signal : Nat} (h0 : 0 < signal) (h : signal < 127) :
    ifExited (ofSignal signal) = false := by
  rw [ifExited, decide_eq_false_iff_not, termSig, ofSignal]
  omega

theorem ifSignaled_ofSignal {signal : Nat} (h0 : 0 < signal) (h : signal < 127) :
    ifSignaled (ofSignal signal) = true := by
  rw [ifSignaled, Bool.and_eq_true, decide_eq_true_eq, decide_eq_true_eq, termSig, ofSignal]
  omega

theorem termSig_ofSignal {signal : Nat} (h : signal < 127) :
    termSig (ofSignal signal) = signal := by
  simp only [termSig, ofSignal]
  omega

theorem ifExited_ofStop (event signal : Nat) : ifExited (ofStop event signal) = false := by
  rw [ifExited, decide_eq_false_iff_not, termSig, ofStop]
  omega

theorem ifSignaled_ofStop (event signal : Nat) : ifSignaled (ofStop event signal) = false := by
  rw [ifSignaled, Bool.and_eq_false_iff, decide_eq_false_iff_not, decide_eq_false_iff_not,
    termSig, ofStop]
  omega

theorem ifStopped_ofStop (event signal : Nat) : ifStopped (ofStop event signal) = true := by
  rw [ifStopped, decide_eq_true_eq, ofStop]
  omega

theorem stopSig_ofStop (event : Nat) {signal : Nat} (h : signal < 256) :
    exitStatus (ofStop event signal) = signal := by
  simp only [exitStatus, ofStop]
  omega

theorem event_ofStop (event signal : Nat) : ofStop event signal / 65536 = event := by
  simp only [ofStop]
  omega

/-- A task that has stopped has not ended. -/
theorem not_ended_of_ifStopped {status : Nat} (h : ifStopped status = true) :
    ifExited status = false ∧ ifSignaled status = false := by
  rw [ifStopped, decide_eq_true_eq] at h
  have hsig : termSig status = 127 := by
    unfold termSig
    omega
  rw [ifExited, ifSignaled, hsig]
  decide

/-! ## How processes end -/

/-- A signal that can end a process. -/
structure Signal where
  number : Nat
  positive : 0 < number
  small : number < 127
  deriving DecidableEq

inductive Ending where
  | exited (code : Nat)
  | killed (signal : Signal)
  deriving DecidableEq

/-- The status word that `waitpid` stores for the end of a process. -/
def Ending.status : Ending → Nat
  | .exited code => ofExit code
  | .killed signal => ofSignal signal.number

/-- The word tells of the end of a process. -/
def ifEnded (status : Nat) : Bool := ifExited status || ifSignaled status

/-- The exit status, or 128 plus the signal, as a shell reports them. -/
def shellStatus (status : Nat) (otherwise : Int) : Int :=
  if ifExited status then exitStatus status
  else if ifSignaled status then 128 + termSig status
  else otherwise

theorem shellStatus_ofExit (code : Nat) (otherwise : Int) :
    shellStatus (ofExit code) otherwise = (code % 256 : Nat) := by
  rw [shellStatus, if_pos (ifExited_ofExit code), exitStatus_ofExit]

theorem shellStatus_ofSignal (signal : Signal) (otherwise : Int) :
    shellStatus (ofSignal signal.number) otherwise = 128 + (signal.number : Int) := by
  rw [shellStatus, ifExited_ofSignal signal.positive signal.small, if_neg Bool.false_ne_true,
    if_pos (ifSignaled_ofSignal signal.positive signal.small), termSig_ofSignal signal.small]

namespace Ending

theorem status_killed_ne_zero (signal : Signal) : (killed signal).status ≠ 0 := by
  have hpositive := signal.positive
  have hsmall := signal.small
  rw [status, ofSignal]
  omega

variable (ending : Ending) (otherwise : Int)

theorem shellStatus_nonneg : 0 ≤ shellStatus ending.status otherwise := by
  cases ending with
  | exited code =>
    rw [status, shellStatus_ofExit]
    omega
  | killed signal =>
    rw [status, shellStatus_ofSignal]
    omega

theorem shellStatus_lt : shellStatus ending.status otherwise < 256 := by
  cases ending with
  | exited code =>
    rw [status, shellStatus_ofExit]
    omega
  | killed signal =>
    have hsmall := signal.small
    rw [status, shellStatus_ofSignal]
    omega

/-- Zero is reported for a process that called `_exit(0)`, and for no other. -/
theorem shellStatus_eq_zero_iff : shellStatus ending.status otherwise = 0 ↔ ending.status = 0 := by
  cases ending with
  | exited code =>
    rw [status, shellStatus_ofExit, ofExit]
    omega
  | killed signal =>
    refine iff_of_false ?_ (status_killed_ne_zero signal)
    rw [status, shellStatus_ofSignal]
    omega

end Ending

end WaitStatus
