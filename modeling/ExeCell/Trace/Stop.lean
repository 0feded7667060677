import ExeCell.Core.Text
import ExeCell.Lib.WaitStatus

/-!
# Stop classification

`classify_stop` reads one wait status and says what kind of stop it reports. The
status of a syscall stop is the same whether the task enters or leaves the kernel:
`kind_syscallStop` is all the classifier can say about it.
-/

namespace ExeCell.Trace

def sigTrap : Nat := 5
def sigKill : Nat := 9
def sigStop : Nat := 19
def sigTstp : Nat := 20
def sigTtin : Nat := 21
def sigTtou : Nat := 22

inductive StopKind where
  | exited
  | signaled
  | syscall
  | ptraceEvent
  | signal
  | groupStop
  | unknown
  deriving DecidableEq, Repr

structure Stop where
  pid : Pid
  rawStatus : Nat
  kind : StopKind := .unknown
  signal : Nat := 0
  ptraceEvent : Nat := 0
  exitStatus : Nat := 0
  deriving DecidableEq, Repr

/-- `classify_stop`. -/
def classifyStop (pid : Pid) (status : Nat) : Stop :=
  let result : Stop := { pid := pid, rawStatus := status }
  if WaitStatus.ifExited status then
    { result with kind := .exited, exitStatus := WaitStatus.exitStatus status }
  else if WaitStatus.ifSignaled status then
    { result with kind := .signaled, signal := WaitStatus.termSig status }
  else if !WaitStatus.ifStopped status then
    result
  else
    let signal := WaitStatus.exitStatus status
    let result := { result with signal := signal }
    if signal = sigTrap ||| 0x80 then
      { result with kind := .syscall }
    else if signal = sigTrap ∧ status / 65536 ≠ 0 then
      { result with kind := .ptraceEvent, ptraceEvent := status / 65536 }
    else if signal = sigStop ∨ signal = sigTstp ∨ signal = sigTtin ∨ signal = sigTtou then
      { result with kind := .groupStop }
    else
      { result with kind := .signal }

@[simp] theorem classifyStop_pid (pid : Pid) (status : Nat) :
    (classifyStop pid status).pid = pid := by
  unfold classifyStop
  dsimp only
  split_ifs <;> rfl

/-- `resume_signal`: the signal a stopped task is resumed with. -/
def resumeSignal (stop : Stop) : Nat :=
  if stop.kind = .signal then (if stop.signal = sigTrap then 0 else stop.signal) else 0

/-- The event of an event stop stands in the upper half of the status word. -/
theorem ptraceEvent_of_kind {pid : Pid} {status : Nat}
    (h : (classifyStop pid status).kind = .ptraceEvent) :
    (classifyStop pid status).ptraceEvent = status / 65536 ∧ status / 65536 ≠ 0 := by
  unfold classifyStop at h ⊢
  grind

/-! ## The stops the kernel reports -/

theorem classifyStop_exit (pid : Pid) (code : Nat) :
    classifyStop pid (WaitStatus.ofExit code) =
      { pid := pid, rawStatus := WaitStatus.ofExit code, kind := .exited,
        exitStatus := code % 256 } := by
  simp [classifyStop, WaitStatus.ifExited_ofExit, WaitStatus.exitStatus_ofExit]

theorem classifyStop_signaled (pid : Pid) {signal : Nat} (h0 : 0 < signal) (h : signal < 127) :
    classifyStop pid (WaitStatus.ofSignal signal) =
      { pid := pid, rawStatus := WaitStatus.ofSignal signal, kind := .signaled,
        signal := signal } := by
  simp [classifyStop, WaitStatus.ifExited_ofSignal h0 h, WaitStatus.ifSignaled_ofSignal h0 h,
    WaitStatus.termSig_ofSignal h]

/-- A stopped status never reads as the end of the task. -/
theorem classifyStop_ofStop (pid : Pid) (event : Nat) {signal : Nat} (h : signal < 256) :
    classifyStop pid (WaitStatus.ofStop event signal) =
      if signal = sigTrap ||| 0x80 then
        { pid := pid, rawStatus := WaitStatus.ofStop event signal, kind := .syscall,
          signal := signal }
      else if signal = sigTrap ∧ event ≠ 0 then
        { pid := pid, rawStatus := WaitStatus.ofStop event signal, kind := .ptraceEvent,
          signal := signal, ptraceEvent := event }
      else if signal = sigStop ∨ signal = sigTstp ∨ signal = sigTtin ∨ signal = sigTtou then
        { pid := pid, rawStatus := WaitStatus.ofStop event signal, kind := .groupStop,
          signal := signal }
      else
        { pid := pid, rawStatus := WaitStatus.ofStop event signal, kind := .signal,
          signal := signal } := by
  simp only [classifyStop, WaitStatus.ifExited_ofStop, WaitStatus.ifSignaled_ofStop,
    WaitStatus.ifStopped_ofStop, WaitStatus.stopSig_ofStop event h, WaitStatus.event_ofStop,
    Bool.false_eq_true, if_false, Bool.not_true]

theorem kind_syscallStop (pid : Pid) :
    (classifyStop pid (WaitStatus.ofStop 0 (sigTrap ||| 0x80))).kind = .syscall := by
  rw [classifyStop_ofStop pid 0 (by decide)]
  rfl

theorem kind_eventStop (pid : Pid) {event : Nat} (h : event ≠ 0) :
    (classifyStop pid (WaitStatus.ofStop event sigTrap)).kind = .ptraceEvent ∧
      (classifyStop pid (WaitStatus.ofStop event sigTrap)).ptraceEvent = event := by
  rw [classifyStop_ofStop pid event (by decide), if_neg (by decide), if_pos ⟨rfl, h⟩]
  exact ⟨rfl, rfl⟩

/-- A signal stop is reported as a plain or a group stop, never as anything the
tracer decodes. -/
theorem kind_signalStop (pid : Pid) {signal : Nat} (h : signal < 128) :
    (classifyStop pid (WaitStatus.ofStop 0 signal)).kind = .signal ∨
      (classifyStop pid (WaitStatus.ofStop 0 signal)).kind = .groupStop := by
  have hne : signal ≠ sigTrap ||| 0x80 := by
    have : sigTrap ||| 0x80 = 133 := by decide
    omega
  rw [classifyStop_ofStop pid 0 (by omega), if_neg hne, if_neg (by simp)]
  split
  · exact Or.inr rfl
  · exact Or.inl rfl

end ExeCell.Trace
