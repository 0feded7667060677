import ExeCell.Trace.Tracer

/-!
# The syscall phase and the kernel

The kernel marks a syscall stop but does not say whether the task enters or leaves a
call; the tracer counts the stops of each task in `Task.phase`. This file compares that
count with what the kernel does.

`KernelPhase` is the kernel's side: a task is outside the kernel, inside a system call,
or dead, and `KernelPhase.next` is the grammar of the stops it reports. A successful
`execve` reports `PTRACE_EVENT_EXEC` and afterwards still the exit stop of the call. The
tracer resets the phase at that event (`handleEvent`), so the exit stop is decoded as an
entry, and every later stop of the task is decoded the wrong way round.

* `step_other`: an iteration that handles another task does not touch the entry of this one.
* `step_synced`: as long as the phase agrees with the kernel, the next stop is decoded
  the right way, and the two still agree unless the stop was an exec event.
* `run_inStep_iff`: over a whole run, exactly the syscall stops after an exec event and
  those whose registers cannot be read are not decoded as the kernel means them.
-/

namespace ExeCell.Trace

open Report

/-! ## The kernel's side -/

/-- What the kernel reports of a task, with the direction of syscall stops that the
status word does not show. -/
inductive KernelStop where
  | syscallEnter
  | syscallExit
  | event (kind : Nat)
  | signal (number : Nat)
  | exited (code : Nat)
  | killed (number : Nat)
  deriving DecidableEq, Repr

namespace KernelStop

/-- The status word under `PTRACE_O_TRACESYSGOOD`. -/
def status : KernelStop → Nat
  | syscallEnter => WaitStatus.ofStop 0 (sigTrap ||| 0x80)
  | syscallExit => WaitStatus.ofStop 0 (sigTrap ||| 0x80)
  | event kind => WaitStatus.ofStop kind sigTrap
  | signal number => WaitStatus.ofStop 0 number
  | exited code => WaitStatus.ofExit code
  | killed number => WaitStatus.ofSignal number

def isSyscall : KernelStop → Bool
  | syscallEnter => true
  | syscallExit => true
  | _ => false

end KernelStop

/-- Where a task is: running its own code, inside a system call (and whether that call
has already reported its event), or dead. -/
inductive KernelPhase where
  | user
  | inCall (reported : Bool)
  | dead
  deriving DecidableEq, Repr

/-- The signal numbers of Linux. -/
def isSignal (number : Nat) : Bool := 1 ≤ number && number ≤ 64

/-- The four events of a task that runs under the options `trace::run` sets. -/
def isTracedEvent (kind : Nat) : Bool :=
  kind = ptraceEventFork ∨ kind = ptraceEventVfork ∨ kind = ptraceEventClone ∨
    kind = ptraceEventExec

/-- The stop grammar: a call is an entry stop, at most one event stop, and an exit stop
or the death of the task; signal stops lie between calls. -/
def KernelPhase.next : KernelPhase → KernelStop → Option KernelPhase
  | .user, .syscallEnter => some (.inCall false)
  | .user, .signal number => if isSignal number then some .user else none
  | .inCall false, .event kind => if isTracedEvent kind then some (.inCall true) else none
  | .inCall _, .syscallExit => some .user
  | .user, .exited _ => some .dead
  | .inCall _, .exited _ => some .dead
  | .user, .killed number => if isSignal number then some .dead else none
  | .inCall _, .killed number => if isSignal number then some .dead else none
  | _, _ => none

/-- The kernel may report these stops of a task that is in the given phase. -/
def KernelPhase.Accepts (phase : KernelPhase) (stops : List KernelStop) : Prop :=
  (stops.foldlM KernelPhase.next phase).isSome

instance (phase : KernelPhase) (stops : List KernelStop) : Decidable (phase.Accepts stops) :=
  inferInstanceAs (Decidable (_ = true))

theorem KernelPhase.accepts_cons {phase : KernelPhase} {stop : KernelStop}
    {stops : List KernelStop} :
    phase.Accepts (stop :: stops) ↔ ∃ later, phase.next stop = some later ∧ later.Accepts stops := by
  unfold Accepts
  rw [List.foldlM_cons]
  cases phase.next stop with
  | none => simp
  | some later => simp

theorem next_event {reported : Bool} {kind : Nat} {later : KernelPhase}
    (h : (KernelPhase.inCall reported).next (.event kind) = some later) :
    isTracedEvent kind ∧ later = .inCall true := by
  cases reported with
  | true => cases h
  | false =>
    simp only [KernelPhase.next, Option.ite_none_right_eq_some, Option.some.injEq] at h
    exact ⟨h.1, h.2.symm⟩

theorem next_signal {number : Nat} {later : KernelPhase}
    (h : KernelPhase.user.next (.signal number) = some later) :
    isSignal number ∧ later = .user := by
  simp only [KernelPhase.next, Option.ite_none_right_eq_some, Option.some.injEq] at h
  exact ⟨h.1, h.2.symm⟩

/-- A task may die in any phase, and is dead from then on. -/
theorem next_end {phase later : KernelPhase} {stop : KernelStop}
    (hstop : (∃ code, stop = .exited code) ∨ ∃ number, stop = .killed number)
    (h : phase.next stop = some later) :
    later = .dead ∧ ∀ number, stop = .killed number → isSignal number := by
  rcases hstop with ⟨code, rfl⟩ | ⟨number, rfl⟩
  · refine ⟨?_, fun number hkilled => by cases hkilled⟩
    rcases phase with - | reported | -
    · exact (Option.some.inj h).symm
    · cases reported <;> exact (Option.some.inj h).symm
    · cases h
  · rcases phase with - | reported | -
    · simp only [KernelPhase.next, Option.ite_none_right_eq_some, Option.some.injEq] at h
      exact ⟨h.2.symm, fun _ heq => by cases heq; exact h.1⟩
    · cases reported <;>
        simp only [KernelPhase.next, Option.ite_none_right_eq_some, Option.some.injEq] at h <;>
        exact ⟨h.2.symm, fun _ heq => by cases heq; exact h.1⟩
    · cases h

/-- One iteration in which `waitpid` reports a stop: the stopped task, the stop, and the
answers of the other calls. The task resumed before may have vanished. -/
structure KernelReport where
  pid : Pid
  stop : KernelStop
  resumedIsGone : Bool := false
  message : Except Errno Nat := .ok 0
  tracee : Except Errno Tracee

/-- All the tracer sees of it. -/
def KernelReport.answers (report : KernelReport) : Answers where
  resume := if report.resumedIsGone then .error esrch else .ok ()
  wait := .ok (report.pid, report.stop.status)
  message := report.message
  tracee := report.tracee

/-- The stops of one task, in order. -/
def stopsOf (pid : Pid) (reports : List KernelReport) : List KernelStop :=
  (reports.filter (·.pid = pid)).map (·.stop)

theorem stopsOf_cons_self {report : KernelReport} (reports : List KernelReport) :
    stopsOf report.pid (report :: reports) = report.stop :: stopsOf report.pid reports := by
  simp [stopsOf]

theorem stopsOf_cons_of_ne {pid : Pid} {report : KernelReport} (reports : List KernelReport)
    (h : report.pid ≠ pid) : stopsOf pid (report :: reports) = stopsOf pid reports := by
  simp [stopsOf, h]

/-! ## Decoder calls -/

/-- The calls of one task's decoder among the actions of an iteration. -/
def decoderCalls (pid : Pid) (actions : List Action) : List Action :=
  actions.filter fun action => action = .onEntry pid ∨ action = .onExit pid

/-- The calls the kernel's view asks for: the entry decoder at an entry stop of the
task, the exit decoder at an exit stop, and nothing otherwise. -/
def dueCalls (pid : Pid) (report : KernelReport) : List Action :=
  if report.pid = pid then
    match report.stop with
    | .syscallEnter => [.onEntry pid]
    | .syscallExit => [.onExit pid]
    | _ => []
  else []

@[simp] theorem decoderCalls_append (pid : Pid) (first second : List Action) :
    decoderCalls pid (first ++ second) = decoderCalls pid first ++ decoderCalls pid second :=
  List.filter_append ..

variable {ρ : Type} {R : Reporter ρ}

@[simp] theorem decoderCalls_emit (pid : Pid) (s : Loop ρ) (payload : Payload) (about : Pid) :
    decoderCalls pid (emit R s payload about).1 = [] := by
  simp [decoderCalls, emit]

@[simp] theorem decoderCalls_emitOption (pid : Pid) (s : Loop ρ) (payload : Option Payload)
    (about : Pid) : decoderCalls pid (emitOption R s payload about).1 = [] := by
  cases payload with
  | none => rfl
  | some payload => exact decoderCalls_emit pid s payload about

@[simp] theorem emit_tasks (s : Loop ρ) (payload : Payload) (about : Pid) :
    (emit R s payload about).2.tasks = s.tasks := rfl

@[simp] theorem emitOption_tasks (s : Loop ρ) (payload : Option Payload) (about : Pid) :
    (emitOption R s payload about).2.tasks = s.tasks := by
  cases payload <;> rfl

/-! ## What one iteration does to the entry of a task -/

theorem resumeStopped_report (s : Loop ρ) (report : KernelReport) (h : s.returned = none) :
    (resumeStopped s report.answers).2.tasks = s.tasks ∧
      (resumeStopped s report.answers).2.returned = none ∧
      ∀ pid, decoderCalls pid (resumeStopped s report.answers).1 = [] := by
  have hanswer : resumeFailed report.answers.resume = false := by
    unfold KernelReport.answers
    cases report.resumedIsGone <;> rfl
  unfold resumeStopped
  split
  · rw [hanswer]
    exact ⟨rfl, h, fun pid => by simp [decoderCalls]⟩
  · exact ⟨rfl, h, fun pid => rfl⟩

/-- An iteration with a reported stop handles that stop in a state with the same tasks. -/
theorem step_report {s s' : Loop ρ} {report : KernelReport} {actions : List Action}
    (h : step R s report.answers = some (actions, s')) :
    ∃ s₁ : Loop ρ, s₁.tasks = s.tasks ∧
      (handleStop R s₁ (classifyStop report.pid report.stop.status) report.answers).2 = s' ∧
      ∀ pid, decoderCalls pid actions = decoderCalls pid
        (handleStop R s₁ (classifyStop report.pid report.stop.status) report.answers).1 := by
  unfold step at h
  split at h
  · cases h
  · rename_i hlive
    have hreturned : s.returned = none := by
      cases hr : s.returned with
      | none => rfl
      | some code => simp [hr] at hlive
    obtain ⟨htasks, hnone, hcalls⟩ := resumeStopped_report s report hreturned
    have hwait : report.answers.wait = .ok (report.pid, report.stop.status) := rfl
    rw [if_neg (by simp [hnone]), hwait] at h
    simp only [Option.some.injEq, Prod.mk.injEq] at h
    obtain ⟨rfl, rfl⟩ := h
    refine ⟨{ (resumeStopped s report.answers).2 with currentPid := report.pid }, htasks, rfl, ?_⟩
    intro pid
    rw [decoderCalls_append, hcalls pid, List.nil_append]

theorem handleEnd_spec (s : Loop ρ) (stop : Stop) :
    (handleEnd R s stop).2.tasks = s.tasks.erase stop.pid ∧
      ∀ pid, decoderCalls pid (handleEnd R s stop).1 = [] := by
  unfold handleEnd
  dsimp only
  split
  · exact ⟨rfl, fun pid => by simp⟩
  · exact ⟨rfl, fun pid => by simp⟩

@[simp] theorem decoderCalls_announceChild (pid : Pid) (s : Loop ρ) (stop : Stop) (message : Nat) :
    decoderCalls pid (announceChild R s stop message).1 = [] := by
  unfold announceChild
  split
  · rfl
  · simp

theorem announceChild_find {s : Loop ρ} {pid : Pid} {task : Task} (stop : Stop) (message : Nat)
    (h : s.tasks.find pid = some task) :
    (announceChild R s stop message).2.tasks.find pid = some task := by
  unfold announceChild
  split
  · exact h
  · exact TaskRegistry.find_emplace_of_some h

theorem find_resetPhase_of_ne {tasks : TaskRegistry} {pid other : Pid} (h : other ≠ pid) :
    (resetPhase tasks pid).find other = tasks.find other := by
  unfold resetPhase
  split
  · rfl
  · exact TaskRegistry.find_put_of_ne _ _ h

theorem find_resetPhase_self {tasks : TaskRegistry} {pid : Pid} {task : Task}
    (h : tasks.find pid = some task) :
    (resetPhase tasks pid).find pid = some { task with phase := .entry } := by
  unfold resetPhase
  simp [h]

theorem decoderCalls_handleEvent (pid : Pid) (s : Loop ρ) (stop : Stop) (answers : Answers) :
    decoderCalls pid (handleEvent R s stop answers).1 = [] := by
  unfold handleEvent
  cases answers.message with
  | error code => rfl
  | ok message =>
    dsimp only
    split
    · simp
    · rfl

/-- An event stop keeps the entry of every task, except for the phase of a task that has
executed a new program. -/
theorem handleEvent_find {s : Loop ρ} {stop : Stop} {answers : Answers} {pid : Pid} {task : Task}
    (h : s.tasks.find pid = some task)
    (hother : stop.pid ≠ pid ∨ stop.ptraceEvent ≠ ptraceEventExec) :
    (handleEvent R s stop answers).2.tasks.find pid = some task := by
  unfold handleEvent
  cases answers.message with
  | error code => exact h
  | ok message =>
    dsimp only
    have hannounced : ∀ (c : Prop) [Decidable c],
        (if c then announceChild R s stop message else ([], s)).2.tasks.find pid = some task := by
      intro c _
      split
      · exact announceChild_find stop message h
      · exact h
    split
    · rename_i hexec
      have hne : pid ≠ stop.pid := by
        rcases hother with hpid | hevent
        · exact fun heq => hpid heq.symm
        · exact absurd hexec hevent
      rw [find_resetPhase_of_ne hne]
      exact hannounced _
    · exact hannounced _

/-- An exec event that the tracer can read puts the task back into the entry phase. -/
theorem handleEvent_exec {s : Loop ρ} {stop : Stop} {answers : Answers} {task : Task}
    (h : s.tasks.find stop.pid = some task) (hexec : stop.ptraceEvent = ptraceEventExec)
    (hlive : (handleEvent R s stop answers).2.returned = none) :
    (handleEvent R s stop answers).2.tasks.find stop.pid = some { task with phase := .entry } := by
  unfold handleEvent at hlive ⊢
  cases hm : answers.message with
  | error code => simp [hm] at hlive
  | ok message =>
    have hother : ¬ (ptraceEventExec = ptraceEventClone ∨ ptraceEventExec = ptraceEventFork ∨
        ptraceEventExec = ptraceEventVfork) := by decide
    simp only [hexec, if_neg hother, if_true]
    exact find_resetPhase_self h

/-- A task in the entry phase has its stop decoded as an entry, one in the exit phase as
an exit, and each decoding flips the phase. -/
theorem decodeStop_self {s : Loop ρ} {task : Task} {pid : Pid} (tracee : Tracee) :
    (task.phase = .entry →
      decoderCalls pid (decodeStop R s task pid tracee).1 = [.onEntry pid] ∧
      ∃ later, (decodeStop R s task pid tracee).2.tasks.find pid = some later ∧
        later.phase = .exit) ∧
    (task.phase = .exit →
      decoderCalls pid (decodeStop R s task pid tracee).1 = [.onExit pid] ∧
      ∃ later, (decodeStop R s task pid tracee).2.tasks.find pid = some later ∧
        later.phase = .entry) := by
  have hcons : ∀ (call : Action) (payload : Option Payload),
      (call = .onEntry pid ∨ call = .onExit pid) →
      decoderCalls pid (call :: (emitOption R s payload pid).1) = [call] := by
    intro call payload hcall
    have hrest := decoderCalls_emitOption (R := R) pid s payload pid
    unfold decoderCalls at hrest ⊢
    rw [List.filter_cons_of_pos (by simpa using hcall), hrest]
  constructor
  · intro hphase
    simp only [decodeStop, hphase]
    exact ⟨hcons _ _ (Or.inl rfl), _, TaskRegistry.find_put_self _ _ _, rfl⟩
  · intro hphase
    simp only [decodeStop, hphase]
    exact ⟨hcons _ _ (Or.inr rfl), _, TaskRegistry.find_put_self _ _ _, rfl⟩

theorem decodeStop_other {s : Loop ρ} {task : Task} {pid other : Pid} (tracee : Tracee)
    (hne : pid ≠ other) :
    decoderCalls other (decodeStop R s task pid tracee).1 = [] ∧
      (decodeStop R s task pid tracee).2.tasks.find other = s.tasks.find other := by
  have hcons : ∀ (call : Action) (payload : Option Payload),
      (call = .onEntry pid ∨ call = .onExit pid) →
      decoderCalls other (call :: (emitOption R s payload pid).1) = [] := by
    intro call payload hcall
    have hrest := decoderCalls_emitOption (R := R) other s payload pid
    unfold decoderCalls at hrest ⊢
    rw [List.filter_cons_of_neg, hrest]
    rcases hcall with rfl | rfl <;> simp [hne]
  have hput : ∀ (registry : TaskRegistry) (task : Task),
      (registry.put pid task).find other = registry.find other :=
    fun registry task => TaskRegistry.find_put_of_ne registry task (Ne.symm hne)
  unfold decodeStop
  split
  · exact ⟨hcons _ _ (Or.inl rfl), by simp [hput]⟩
  · exact ⟨hcons _ _ (Or.inr rfl), by simp [hput]⟩
  · exact ⟨rfl, hput _ _⟩

/-- A syscall stop of one task concerns no other task. -/
theorem handleSyscall_other {s : Loop ρ} {stop : Stop} {answers : Answers} {other : Pid}
    (hne : stop.pid ≠ other) :
    decoderCalls other (handleSyscall R s stop answers).1 = [] ∧
      (handleSyscall R s stop answers).2.tasks.find other = s.tasks.find other := by
  unfold handleSyscall
  cases s.tasks.find stop.pid with
  | none => exact ⟨rfl, rfl⟩
  | some task =>
    cases answers.tracee with
    | error code =>
      dsimp only
      split
      · exact ⟨rfl, TaskRegistry.find_erase_of_ne _ (Ne.symm hne)⟩
      · exact ⟨rfl, rfl⟩
    | ok tracee => exact decodeStop_other tracee hne

/-- An iteration that handles a stop of another task leaves the entry of this task alone
and does not call its decoder. -/
theorem step_other {s s' : Loop ρ} {report : KernelReport} {actions : List Action} {pid : Pid}
    (hne : report.pid ≠ pid) (h : step R s report.answers = some (actions, s')) :
    decoderCalls pid actions = [] ∧
      ∀ task, s.tasks.find pid = some task → s'.tasks.find pid = some task := by
  obtain ⟨s₁, htasks, rfl, hcalls⟩ := step_report h
  rw [hcalls pid, ← htasks]
  have hstop : (classifyStop report.pid report.stop.status).pid ≠ pid := by simpa using hne
  generalize classifyStop report.pid report.stop.status = stop at hstop ⊢
  have hend := handleEnd_spec (R := R) s₁ stop
  unfold handleStop
  split
  · exact ⟨hend.2 pid, fun task hfind => by
      rw [hend.1, TaskRegistry.find_erase_of_ne _ (Ne.symm hstop), hfind]⟩
  · exact ⟨hend.2 pid, fun task hfind => by
      rw [hend.1, TaskRegistry.find_erase_of_ne _ (Ne.symm hstop), hfind]⟩
  · exact ⟨decoderCalls_handleEvent .., fun task hfind => handleEvent_find hfind (Or.inl hstop)⟩
  · exact ⟨(handleSyscall_other hstop).1, fun task hfind => by
      rw [(handleSyscall_other hstop).2, hfind]⟩
  all_goals exact ⟨rfl, fun task hfind => hfind⟩

theorem kind_of_isSyscall {stop : KernelStop} (hs : stop.isSyscall) (pid : Pid) :
    (classifyStop pid stop.status).kind = .syscall := by
  cases stop with
  | syscallEnter => exact kind_syscallStop pid
  | syscallExit => exact kind_syscallStop pid
  | _ => cases hs

/-- Both directions of a syscall stop are handled as such. -/
theorem handleStop_syscall {stop : KernelStop} (hs : stop.isSyscall) (s : Loop ρ) (pid : Pid)
    (answers : Answers) :
    handleStop R s (classifyStop pid stop.status) answers =
      handleSyscall R s (classifyStop pid stop.status) answers := by
  rw [handleStop, kind_of_isSyscall hs]

theorem step_readable {s s' : Loop ρ} {report : KernelReport} {actions : List Action}
    {task : Task} {tracee : Tracee} (hs : report.stop.isSyscall)
    (hr : report.tracee = .ok tracee) (hfind : s.tasks.find report.pid = some task)
    (h : step R s report.answers = some (actions, s')) :
    (task.phase = .entry → decoderCalls report.pid actions = [.onEntry report.pid] ∧
      ∃ later, s'.tasks.find report.pid = some later ∧ later.phase = .exit) ∧
    (task.phase = .exit → decoderCalls report.pid actions = [.onExit report.pid] ∧
      ∃ later, s'.tasks.find report.pid = some later ∧ later.phase = .entry) := by
  obtain ⟨s₁, htasks, rfl, hcalls⟩ := step_report h
  rw [hcalls, handleStop_syscall hs, handleSyscall, classifyStop_pid, htasks, hfind]
  have htracee : report.answers.tracee = .ok tracee := hr
  simp only [htracee]
  exact decodeStop_self tracee

theorem step_unreadable {s s' : Loop ρ} {report : KernelReport} {actions : List Action}
    {code : Errno} (hs : report.stop.isSyscall) (hr : report.tracee = .error code)
    (h : step R s report.answers = some (actions, s')) (pid : Pid) :
    decoderCalls pid actions = [] := by
  obtain ⟨s₁, htasks, rfl, hcalls⟩ := step_report h
  have htracee : report.answers.tracee = .error code := hr
  rw [hcalls, handleStop_syscall hs, handleSyscall]
  cases s₁.tasks.find (classifyStop report.pid report.stop.status).pid with
  | none => rfl
  | some task =>
    simp only [htracee]
    split <;> rfl

/-- A signal stop changes no entry and is not decoded. -/
theorem step_signal {s s' : Loop ρ} {report : KernelReport} {actions : List Action} {number : Nat}
    (hstop : report.stop = .signal number) (hnumber : isSignal number)
    (h : step R s report.answers = some (actions, s')) (pid : Pid) :
    decoderCalls pid actions = [] ∧ s'.tasks = s.tasks := by
  obtain ⟨s₁, htasks, rfl, hcalls⟩ := step_report h
  have hlt : number < 128 := by
    simp only [isSignal, Bool.and_eq_true, decide_eq_true_eq] at hnumber
    omega
  rw [hcalls, ← htasks, handleStop, hstop, KernelStop.status]
  rcases kind_signalStop report.pid hlt with hkind | hkind <;> rw [hkind] <;> exact ⟨rfl, rfl⟩

/-- The end of a task is not decoded. -/
theorem step_end {s s' : Loop ρ} {report : KernelReport} {actions : List Action}
    (hstop : (∃ code, report.stop = .exited code) ∨
      ∃ number, report.stop = .killed number ∧ isSignal number)
    (h : step R s report.answers = some (actions, s')) (pid : Pid) :
    decoderCalls pid actions = [] := by
  obtain ⟨s₁, htasks, rfl, hcalls⟩ := step_report h
  rw [hcalls, handleStop]
  rcases hstop with ⟨code, hstop⟩ | ⟨number, hstop, hnumber⟩
  · rw [hstop, KernelStop.status, classifyStop_exit]
    exact (handleEnd_spec _ _).2 pid
  · simp only [isSignal, Bool.and_eq_true, decide_eq_true_eq] at hnumber
    rw [hstop, KernelStop.status, classifyStop_signaled report.pid (by omega) (by omega)]
    exact (handleEnd_spec _ _).2 pid

/-- An event stop is not decoded; it keeps the entry of its task unless it reports an
exec, which resets the phase. -/
theorem step_event {s s' : Loop ρ} {report : KernelReport} {actions : List Action} {kind : Nat}
    {task : Task} (hstop : report.stop = .event kind) (hkind : kind ≠ 0)
    (hfind : s.tasks.find report.pid = some task)
    (h : step R s report.answers = some (actions, s')) :
    decoderCalls report.pid actions = [] ∧
      (kind ≠ ptraceEventExec → s'.tasks.find report.pid = some task) ∧
      (kind = ptraceEventExec → s'.returned = none →
        s'.tasks.find report.pid = some { task with phase := .entry }) := by
  obtain ⟨s₁, htasks, rfl, hcalls⟩ := step_report h
  have hclass := kind_eventStop report.pid hkind
  have hhandle : handleStop R s₁ (classifyStop report.pid report.stop.status) report.answers =
      handleEvent R s₁ (classifyStop report.pid report.stop.status) report.answers := by
    rw [hstop, KernelStop.status, handleStop, hclass.1]
  have hevent : (classifyStop report.pid report.stop.status).ptraceEvent = kind := by
    rw [hstop, KernelStop.status, hclass.2]
  rw [← htasks] at hfind
  rw [hcalls, hhandle]
  refine ⟨decoderCalls_handleEvent .., fun hne => handleEvent_find hfind (Or.inr ?_), ?_⟩
  · rwa [hevent]
  · intro hexec hlive
    have hself := handleEvent_exec (by rwa [classifyStop_pid]) (hevent.trans hexec) hlive
    rwa [classifyStop_pid] at hself

/-! ## Whole runs -/

/-- The tracer's phase of a task agrees with the kernel's. -/
def Synced (phase : KernelPhase) (pid : Pid) (s : Loop ρ) : Prop :=
  match phase with
  | .user => ∃ task, s.tasks.find pid = some task ∧ task.phase = .entry
  | .inCall _ => ∃ task, s.tasks.find pid = some task ∧ task.phase = .exit
  | .dead => True

/-- Every decoder call of the task is made at the stop that is due for it, and every
due call is made. -/
def InStep (pid : Pid) (reports : List KernelReport) (outputs : List (List Action)) : Prop :=
  outputs.map (decoderCalls pid) = reports.map (dueCalls pid)

instance (pid : Pid) (reports : List KernelReport) (outputs : List (List Action)) :
    Decidable (InStep pid reports outputs) :=
  inferInstanceAs (Decidable (_ = _))

/-- The registers of the task can be read at each of its syscall stops. -/
def ReadableStops (pid : Pid) (reports : List KernelReport) : Prop :=
  ∀ report ∈ reports, report.pid = pid → report.stop.isSyscall →
    ∃ tracee, report.tracee = .ok tracee

/-- No syscall stop of the task follows an exec event of it. -/
def NoSyscallAfterExec (pid : Pid) (reports : List KernelReport) : Prop :=
  reports.Pairwise fun first second =>
    first.pid = pid → first.stop = .event ptraceEventExec → second.pid = pid →
      second.stop.isSyscall = false

theorem synced_of_other {phase : KernelPhase} {pid : Pid} {s s' : Loop ρ}
    (hkeep : ∀ task, s.tasks.find pid = some task → s'.tasks.find pid = some task)
    (h : Synced phase pid s) : Synced phase pid s' := by
  cases phase with
  | user => obtain ⟨task, hfind, hphase⟩ := h; exact ⟨task, hkeep task hfind, hphase⟩
  | inCall reported => obtain ⟨task, hfind, hphase⟩ := h; exact ⟨task, hkeep task hfind, hphase⟩
  | dead => trivial

/-- As long as the phases agree, a readable stop is decoded as the kernel means it, and
the phases agree again unless the stop was an exec event. -/
theorem step_synced {phase later : KernelPhase} {s s' : Loop ρ} {report : KernelReport}
    {actions : List Action} (hsync : Synced phase report.pid s)
    (hnext : phase.next report.stop = some later)
    (hread : report.stop.isSyscall → ∃ tracee, report.tracee = .ok tracee)
    (h : step R s report.answers = some (actions, s')) :
    decoderCalls report.pid actions = dueCalls report.pid report ∧
      (report.stop ≠ .event ptraceEventExec → Synced later report.pid s') := by
  cases hstop : report.stop with
  | syscallEnter =>
    obtain ⟨tracee, hr⟩ := hread (by rw [hstop]; rfl)
    cases phase with
    | user =>
      obtain ⟨task, hfind, hphase⟩ := hsync
      obtain ⟨hcalls, hlater⟩ := (step_readable (by rw [hstop]; rfl) hr hfind h).1 hphase
      rw [hstop] at hnext
      cases hnext
      exact ⟨by rw [hcalls, dueCalls, if_pos rfl, hstop], fun _ => hlater⟩
    | inCall reported => cases reported <;> (rw [hstop] at hnext; cases hnext)
    | dead => rw [hstop] at hnext; cases hnext
  | syscallExit =>
    obtain ⟨tracee, hr⟩ := hread (by rw [hstop]; rfl)
    cases phase with
    | user => rw [hstop] at hnext; cases hnext
    | inCall reported =>
      obtain ⟨task, hfind, hphase⟩ := hsync
      obtain ⟨hcalls, hlater⟩ := (step_readable (by rw [hstop]; rfl) hr hfind h).2 hphase
      have huser : later = .user := by
        rw [hstop] at hnext
        cases reported <;> exact (Option.some.inj hnext).symm
      rw [huser]
      exact ⟨by rw [hcalls, dueCalls, if_pos rfl, hstop], fun _ => hlater⟩
    | dead => rw [hstop] at hnext; cases hnext
  | event kind =>
    rw [hstop] at hnext
    cases phase with
    | user => cases hnext
    | inCall reported =>
      obtain ⟨task, hfind, hphase⟩ := hsync
      obtain ⟨htraced, hlater⟩ := next_event hnext
      have hkind : kind ≠ 0 := by
        rintro rfl
        exact absurd htraced (by decide)
      obtain ⟨hcalls, hkeep, -⟩ := step_event hstop hkind hfind h
      refine ⟨by rw [hcalls, dueCalls, if_pos rfl, hstop], fun hexec => ?_⟩
      rw [hlater]
      exact ⟨task, hkeep (fun heq => hexec (by rw [heq])), hphase⟩
    | dead => cases hnext
  | signal number =>
    rw [hstop] at hnext
    cases phase with
    | user =>
      obtain ⟨task, hfind, hphase⟩ := hsync
      obtain ⟨hnumber, hlater⟩ := next_signal hnext
      obtain ⟨hcalls, htasks⟩ := step_signal hstop hnumber h report.pid
      refine ⟨by rw [hcalls, dueCalls, if_pos rfl, hstop], fun _ => ?_⟩
      rw [hlater]
      exact ⟨task, by rw [htasks, hfind], hphase⟩
    | inCall reported => cases reported <;> cases hnext
    | dead => cases hnext
  | exited code =>
    rw [hstop] at hnext
    have hdead := next_end (Or.inl ⟨code, rfl⟩) hnext
    refine ⟨?_, fun _ => by rw [hdead.1]; trivial⟩
    rw [step_end (Or.inl ⟨code, hstop⟩) h, dueCalls, if_pos rfl, hstop]
  | killed number =>
    rw [hstop] at hnext
    have hdead := next_end (Or.inr ⟨number, rfl⟩) hnext
    refine ⟨?_, fun _ => by rw [hdead.1]; trivial⟩
    rw [step_end (Or.inr ⟨number, hstop, hdead.2 number rfl⟩) h, dueCalls, if_pos rfl, hstop]

theorem inStep_cons {pid : Pid} {report : KernelReport} {reports : List KernelReport}
    {actions : List Action} {outputs : List (List Action)} :
    InStep pid (report :: reports) (actions :: outputs) ↔
      decoderCalls pid actions = dueCalls pid report ∧ InStep pid reports outputs := by
  simp [InStep]

theorem dueCalls_of_ne {pid : Pid} {report : KernelReport} (h : report.pid ≠ pid) :
    dueCalls pid report = [] := if_neg h

/-- Without a stop of the task its decoder is never called. -/
theorem run_inStep_of_no_stops {pid : Pid} {reports : List KernelReport} {s s' : Loop ρ}
    {outputs : List (List Action)} (hnone : ∀ report ∈ reports, report.pid ≠ pid)
    (hrun : Machine.run (step R) s (reports.map KernelReport.answers) = some (outputs, s')) :
    InStep pid reports outputs := by
  induction reports generalizing s outputs with
  | nil =>
    simp only [List.map_nil, Machine.run_nil, Option.some.injEq, Prod.mk.injEq] at hrun
    rw [← hrun.1]
    rfl
  | cons report reports ih =>
    obtain ⟨actions, s₁, rest, hstep, hrest, rfl⟩ := Machine.run_cons.mp hrun
    have hne := hnone report List.mem_cons_self
    refine inStep_cons.mpr ⟨?_, ih (fun r hr => hnone r (List.mem_cons_of_mem _ hr)) hrest⟩
    rw [(step_other hne hstep).1, dueCalls_of_ne hne]

theorem no_stops_of_dead {pid : Pid} {reports : List KernelReport}
    (h : KernelPhase.dead.Accepts (stopsOf pid reports)) :
    ∀ report ∈ reports, report.pid ≠ pid := by
  intro report hmem heq
  have hstop : report.stop ∈ stopsOf pid reports :=
    List.mem_map.mpr ⟨report, List.mem_filter.mpr ⟨hmem, by simpa using heq⟩, rfl⟩
  cases hstops : stopsOf pid reports with
  | nil => rw [hstops] at hstop; cases hstop
  | cons stop stops =>
    rw [hstops] at h
    obtain ⟨later, hnext, -⟩ := KernelPhase.accepts_cons.mp h
    cases stop <;> cases hnext

/-- After an exec event the phase says "entry" while the task is still inside its call.
From there on the decoder is in step exactly as long as no syscall stop follows: the
first one is the exit of the call. -/
theorem run_after_exec {pid : Pid} {reports : List KernelReport} {s s' : Loop ρ}
    {outputs : List (List Action)} {task : Task}
    (hfind : s.tasks.find pid = some task) (hphase : task.phase = .entry)
    (hkernel : (KernelPhase.inCall true).Accepts (stopsOf pid reports))
    (hrun : Machine.run (step R) s (reports.map KernelReport.answers) = some (outputs, s')) :
    InStep pid reports outputs ↔
      ∀ report ∈ reports, report.pid = pid → report.stop.isSyscall = false := by
  induction reports generalizing s outputs with
  | nil =>
    simp only [List.map_nil, Machine.run_nil, Option.some.injEq, Prod.mk.injEq] at hrun
    simp [InStep, ← hrun.1]
  | cons report reports ih =>
    obtain ⟨actions, s₁, rest, hstep, hrest, rfl⟩ := Machine.run_cons.mp hrun
    rw [inStep_cons, List.forall_mem_cons]
    by_cases hpid : report.pid = pid
    · subst hpid
      rw [stopsOf_cons_self] at hkernel
      obtain ⟨later, hnext, haccepts⟩ := KernelPhase.accepts_cons.mp hkernel
      by_cases hsys : report.stop.isSyscall
      · -- the exit stop of the call that executed the new program
        have hexit : report.stop = .syscallExit := by
          cases hstop : report.stop with
          | syscallEnter => rw [hstop] at hnext; cases hnext
          | syscallExit => rfl
          | _ => rw [hstop] at hsys; cases hsys
        have hwrong : decoderCalls report.pid actions ≠ dueCalls report.pid report := by
          rw [dueCalls, if_pos rfl, hexit]
          cases hr : report.tracee with
          | error code => rw [step_unreadable hsys hr hstep]; simp
          | ok tracee => rw [((step_readable hsys hr hfind hstep).1 hphase).1]; simp
        simp [hwrong, hsys]
      · have hend : (∃ code, report.stop = .exited code) ∨
            ∃ number, report.stop = .killed number := by
          cases hstop : report.stop with
          | exited code => exact Or.inl ⟨code, rfl⟩
          | killed number => exact Or.inr ⟨number, rfl⟩
          | signal number => rw [hstop] at hnext; cases hnext
          | event kind => rw [hstop] at hnext; cases hnext
          | syscallEnter => rw [hstop] at hsys; exact absurd rfl hsys
          | syscallExit => rw [hstop] at hsys; exact absurd rfl hsys
        obtain ⟨rfl, hsignal⟩ := next_end hend hnext
        have hnone := no_stops_of_dead haccepts
        have hcalls : decoderCalls report.pid actions = dueCalls report.pid report := by
          rw [step_end (hend.imp_right fun ⟨n, hn⟩ => ⟨n, hn, hsignal n hn⟩) hstep]
          rcases hend with ⟨code, hstop⟩ | ⟨number, hstop⟩ <;>
            rw [dueCalls, if_pos rfl, hstop]
        simp only [hcalls, run_inStep_of_no_stops hnone hrest, and_self, true_iff]
        exact ⟨fun _ => by simpa using hsys, fun r hr heq => absurd heq (hnone r hr)⟩
    · rw [stopsOf_cons_of_ne _ hpid] at hkernel
      obtain ⟨hcalls, hkeep⟩ := step_other hpid hstep
      rw [ih (hkeep task hfind) hkernel hrest, hcalls, dueCalls_of_ne hpid]
      simp [hpid]

/-- A run cannot go on from a state in which `trace::run` has returned. -/
theorem run_of_returned {s s' : Loop ρ} {inputs : List Answers} {outputs : List (List Action)}
    {code : Int} (h : s.returned = some code)
    (hrun : Machine.run (step R) s inputs = some (outputs, s')) : inputs = [] := by
  cases inputs with
  | nil => rfl
  | cons answers rest =>
    obtain ⟨actions, s₁, outs, hstep, -, -⟩ := Machine.run_cons.mp hrun
    rw [step, if_pos (Or.inl (by rw [h]; rfl))] at hstep
    cases hstep

theorem readableStops_cons {pid : Pid} {report : KernelReport} {reports : List KernelReport} :
    ReadableStops pid (report :: reports) ↔
      (report.pid = pid → report.stop.isSyscall → ∃ tracee, report.tracee = .ok tracee) ∧
        ReadableStops pid reports :=
  List.forall_mem_cons

theorem noSyscallAfterExec_cons {pid : Pid} {report : KernelReport}
    {reports : List KernelReport} :
    NoSyscallAfterExec pid (report :: reports) ↔
      (report.pid = pid → report.stop = .event ptraceEventExec →
        ∀ later ∈ reports, later.pid = pid → later.stop.isSyscall = false) ∧
      NoSyscallAfterExec pid reports := by
  unfold NoSyscallAfterExec
  rw [List.pairwise_cons]
  refine and_congr_left fun _ => ?_
  exact ⟨fun h hpid hexec later hmem heq => h later hmem hpid hexec heq,
    fun h later hmem hpid hexec heq => h hpid hexec later hmem heq⟩

/-- When a run starts with an exec event of the task, no syscall stop of it may follow. -/
theorem conditions_of_exec {report : KernelReport} {reports : List KernelReport}
    (hexec : report.stop = .event ptraceEventExec) :
    (ReadableStops report.pid (report :: reports) ∧
      NoSyscallAfterExec report.pid (report :: reports)) ↔
    ∀ later ∈ reports, later.pid = report.pid → later.stop.isSyscall = false := by
  rw [readableStops_cons, noSyscallAfterExec_cons]
  constructor
  · rintro ⟨-, hnone, -⟩
    exact hnone rfl hexec
  · intro hnone
    refine ⟨⟨fun _ hsys => ?_, fun later hmem heq hsys => ?_⟩, fun _ _ => hnone, ?_⟩
    · rw [hexec] at hsys
      cases hsys
    · rw [hnone later hmem heq] at hsys
      cases hsys
    · exact List.pairwise_of_forall_mem_list fun _ _ second hsecond _ _ heq =>
        hnone second hsecond heq

/-- The rest of a run after an exec event of a task that was in step before. -/
theorem run_past_exec {phase later : KernelPhase} {report : KernelReport}
    {reports : List KernelReport} {s s₁ s' : Loop ρ} {actions : List Action}
    {outputs : List (List Action)} (hexec : report.stop = .event ptraceEventExec)
    (hsync : Synced phase report.pid s) (hnext : phase.next report.stop = some later)
    (hstep : step R s report.answers = some (actions, s₁))
    (hkernel : later.Accepts (stopsOf report.pid reports))
    (hrun : Machine.run (step R) s₁ (reports.map KernelReport.answers) = some (outputs, s')) :
    InStep report.pid reports outputs ↔
      ∀ r ∈ reports, r.pid = report.pid → r.stop.isSyscall = false := by
  rw [hexec] at hnext
  obtain ⟨reported, rfl⟩ : ∃ reported, phase = .inCall reported := by
    cases phase with
    | user => cases hnext
    | inCall reported => exact ⟨reported, rfl⟩
    | dead => cases hnext
  obtain ⟨task, hfind, -⟩ := hsync
  cases hreturned : s₁.returned with
  | some code =>
    -- the event message could not be read: the run ends here
    have hnil : reports = [] := by simpa using run_of_returned hreturned hrun
    subst hnil
    simp only [List.map_nil, Machine.run_nil, Option.some.injEq, Prod.mk.injEq] at hrun
    simp [InStep, ← hrun.1]
  | none =>
    obtain ⟨-, -, hreset⟩ := step_event hexec (by decide) hfind hstep
    rw [(next_event hnext).2] at hkernel
    exact run_after_exec (hreset rfl hreturned) rfl hkernel hrun

theorem run_synced {phase : KernelPhase} {pid : Pid} {reports : List KernelReport}
    {s s' : Loop ρ} {outputs : List (List Action)} (hsync : Synced phase pid s)
    (hkernel : phase.Accepts (stopsOf pid reports))
    (hrun : Machine.run (step R) s (reports.map KernelReport.answers) = some (outputs, s')) :
    InStep pid reports outputs ↔ ReadableStops pid reports ∧ NoSyscallAfterExec pid reports := by
  induction reports generalizing s phase outputs with
  | nil =>
    simp only [List.map_nil, Machine.run_nil, Option.some.injEq, Prod.mk.injEq] at hrun
    simp [InStep, ReadableStops, NoSyscallAfterExec, ← hrun.1]
  | cons report reports ih =>
    obtain ⟨actions, s₁, rest, hstep, hrest, rfl⟩ := Machine.run_cons.mp hrun
    rw [inStep_cons]
    by_cases hpid : report.pid = pid
    · subst hpid
      rw [stopsOf_cons_self] at hkernel
      obtain ⟨later, hnext, haccepts⟩ := KernelPhase.accepts_cons.mp hkernel
      by_cases hread : report.stop.isSyscall → ∃ tracee, report.tracee = .ok tracee
      · obtain ⟨hcalls, hsynced⟩ := step_synced hsync hnext hread hstep
        simp only [hcalls, true_and]
        by_cases hexec : report.stop = .event ptraceEventExec
        · rw [run_past_exec hexec hsync hnext hstep haccepts hrest, conditions_of_exec hexec]
        · rw [ih (hsynced hexec) haccepts hrest, readableStops_cons, noSyscallAfterExec_cons]
          exact ⟨fun h => ⟨⟨fun _ => hread, h.1⟩, fun _ heq => absurd heq hexec, h.2⟩,
            fun h => ⟨h.1.2, h.2.2⟩⟩
      · -- no decoder is called at a stop whose registers cannot be read
        obtain ⟨hsys, hunread⟩ : report.stop.isSyscall ∧ ¬ ∃ tracee, report.tracee = .ok tracee := by
          simpa using hread
        have hwrong : decoderCalls report.pid actions ≠ dueCalls report.pid report := by
          cases hr : report.tracee with
          | ok tracee => exact absurd ⟨tracee, hr⟩ hunread
          | error code =>
            rw [step_unreadable hsys hr hstep, dueCalls, if_pos rfl]
            cases hstop : report.stop with
            | syscallEnter => simp
            | syscallExit => simp
            | _ => rw [hstop] at hsys; cases hsys
        have hnot : ¬ ReadableStops report.pid (report :: reports) := fun hall =>
          hunread (hall report List.mem_cons_self rfl hsys)
        simp [hwrong, hnot]
    · rw [stopsOf_cons_of_ne _ hpid] at hkernel
      obtain ⟨hcalls, hkeep⟩ := step_other hpid hstep
      rw [ih (synced_of_other hkeep hsync) hkernel hrest, hcalls, dueCalls_of_ne hpid,
        readableStops_cons, noSyscallAfterExec_cons]
      simp [hpid]

/-- Take any state of the loop in which a task is registered in the entry phase, and any
run from there in which the kernel reports stops of the task as its grammar allows and
anything at all of the other tasks. The decoder of the task is called at exactly the
stops, and in exactly the direction, that the kernel means if and only if the registers
can be read at every syscall stop of the task and no such stop follows an exec event. -/
theorem run_inStep_iff (R : Reporter ρ) {s s' : Loop ρ} {pid : Pid} {task : Task}
    {reports : List KernelReport} {outputs : List (List Action)}
    (hfind : s.tasks.find pid = some task) (hphase : task.phase = .entry)
    (hkernel : KernelPhase.user.Accepts (stopsOf pid reports))
    (hrun : Machine.run (step R) s (reports.map KernelReport.answers) = some (outputs, s')) :
    InStep pid reports outputs ↔ ReadableStops pid reports ∧ NoSyscallAfterExec pid reports := by
  have hsync : Synced .user pid s := ⟨task, hfind, hphase⟩
  exact run_synced hsync hkernel hrun

/-- A reporter that keeps nothing. -/
def nullReporter : Reporter Unit where
  report := fun _ _ => ()

/-- A task stopped in the call with the given number. -/
def stoppedIn (syscall : Nat) : Tracee where
  registers := { origRax := syscall }
  memory := fun _ => none

/-- Task 100 calls `getpid`. -/
def getpidReports : List KernelReport :=
  [{ pid := 100, stop := .syscallEnter, tracee := .ok (stoppedIn 39) },
    { pid := 100, stop := .syscallExit, tracee := .ok (stoppedIn 39) }]

/-- Task 100 executes a new program. -/
def execveReports : List KernelReport :=
  [{ pid := 100, stop := .syscallEnter, tracee := .ok (stoppedIn 59) },
    { pid := 100, stop := .event ptraceEventExec, tracee := .ok (stoppedIn 59) },
    { pid := 100, stop := .syscallExit, tracee := .ok (stoppedIn 59) }]

theorem run_inStep_getpid :
    ∃ outputs s', Machine.run (step nullReporter) (start nullReporter 100 ()).2
        (getpidReports.map KernelReport.answers) = some (outputs, s') ∧
      InStep 100 getpidReports outputs := by
  have hfind : (start nullReporter 100 ()).2.tasks.find 100 = some { pid := 100 } := rfl
  refine ⟨_, _, rfl, ?_⟩
  refine (run_inStep_iff nullReporter hfind rfl (by decide) rfl).mpr
    ⟨?_, by simp [NoSyscallAfterExec, getpidReports]⟩
  intro report hmem _ _
  simp only [getpidReports, List.mem_cons, List.not_mem_nil, or_false] at hmem
  rcases hmem with rfl | rfl <;> exact ⟨_, rfl⟩

/-- A successful `execve` puts the decoder out of step: its exit stop is decoded as the
entry of a call. -/
theorem run_execve_not_inStep :
    ∃ outputs s', (start nullReporter 100 ()).2.tasks.find 100 = some { pid := 100 } ∧
      KernelPhase.user.Accepts (stopsOf 100 execveReports) ∧
      Machine.run (step nullReporter) (start nullReporter 100 ()).2
        (execveReports.map KernelReport.answers) = some (outputs, s') ∧
      ¬ InStep 100 execveReports outputs := by
  refine ⟨_, _, rfl, by decide, rfl, ?_⟩
  decide

end ExeCell.Trace
