import ExeCell.Lib.Machine
import ExeCell.Report.Reporter
import ExeCell.Trace.Stop
import ExeCell.Trace.TaskRegistry

/-!
# The tracer

`trace::run` as a step machine. One step is one iteration of its loop: resume the task
handled last, wait for the next stop, and handle it. The answers of the system calls
an iteration makes are its input; its output lists, in order, the resumptions, the
calls of the decoder and the events handed to the reporter.

The tracer sees of a stop only its wait status (`Answers.wait`).
-/

namespace ExeCell.Trace

open Report

/-- `EXIT_FAILURE`. -/
def exitFailure : Int := 1

def ptraceEventFork : Nat := 1
def ptraceEventVfork : Nat := 2
def ptraceEventClone : Nat := 3
def ptraceEventExec : Nat := 4

/-- The answers of the system calls of one iteration. Only those the iteration really
makes are looked at. -/
structure Answers where
  /-- `PTRACE_SYSCALL`. -/
  resume : Except Errno Unit := .ok ()
  /-- `waitpid`: the stopped task and its status word. -/
  wait : Except Errno (Pid × Nat)
  /-- `PTRACE_GETEVENTMSG`. -/
  message : Except Errno Nat := .ok 0
  /-- `PTRACE_GETREGS`, with the memory the decoder may read at this stop. -/
  tracee : Except Errno Tracee

/-! What the system answers at the stops of a task. -/

namespace Answers

/-- A task stops at the entry or at the exit of a call. -/
def call (pid : Pid) (number rax : Nat) : Answers where
  wait := .ok (pid, WaitStatus.ofStop 0 (sigTrap ||| 0x80))
  tracee := .ok
    { registers := { origRax := number, rax := rax }, memory := fun _ => none }

/-- A task stops inside `fork`, which has made a child. -/
def forked (pid : Pid) (child : Nat) : Answers where
  wait := .ok (pid, WaitStatus.ofStop ptraceEventFork sigTrap)
  message := .ok child
  tracee := .error esrch

/-- A task stops because of a signal, a child before it has run because of `SIGSTOP`. -/
def signaled (pid : Pid) (signal : Nat) : Answers where
  wait := .ok (pid, WaitStatus.ofStop 0 signal)
  tracee := .error esrch

def exited (pid : Pid) (code : Nat) : Answers where
  wait := .ok (pid, WaitStatus.ofExit code)
  tracee := .error esrch

end Answers

/-- What an iteration does to the world outside the tracer. -/
inductive Action where
  | resume (pid : Pid) (signal : Nat)
  | onEntry (pid : Pid)
  | onExit (pid : Pid)
  | report (event : Event)
  deriving DecidableEq, Repr

/-- The variables of `trace::run`; `returned` is its result once it has returned from
inside the loop. -/
structure Loop (ρ : Type) where
  rootPid : Pid
  tasks : TaskRegistry
  sequence : Nat := 0
  pendingSignal : Nat := 0
  currentPid : Pid
  resumeCurrent : Bool := true
  reporter : ρ
  returned : Option Int := none

variable {ρ : Type}

/-- The lambda `emit`. -/
def emit (R : Reporter ρ) (s : Loop ρ) (payload : Payload) (pid : Pid) :
    List Action × Loop ρ :=
  let event : Event := ⟨payload, { pid := pid, sequence := s.sequence }⟩
  let reporter := R.report s.reporter event
  ([.report event],
    { s with
      sequence := (s.sequence + 1) % 2 ^ 64
      reporter := reporter
      pendingSignal := if R.stopRequested reporter then sigKill else s.pendingSignal })

/-- An event the decoder may have produced. -/
def emitOption (R : Reporter ρ) (s : Loop ρ) (payload : Option Payload) (pid : Pid) :
    List Action × Loop ρ :=
  match payload with
  | none => ([], s)
  | some payload => emit R s payload pid

/-- `PTRACE_SYSCALL` may fail because the task is gone; any other error ends the run. -/
def resumeFailed (answer : Except Errno Unit) : Bool :=
  match answer with
  | .ok _ => false
  | .error code => code ≠ esrch

/-- The start of an iteration: resume the task that was handled last. -/
def resumeStopped (s : Loop ρ) (answers : Answers) : List Action × Loop ρ :=
  if s.resumeCurrent then
    ([.resume s.currentPid s.pendingSignal],
      { s with
        pendingSignal := 0
        resumeCurrent := false
        returned := if resumeFailed answers.resume then some exitFailure else s.returned })
  else ([], s)

/-- The status of a task that has ended: its exit status, or the signal that killed it. -/
def endResult (stop : Stop) : Int :=
  if stop.kind = .signaled then stop.signal else stop.exitStatus

/-- A task has ended. -/
def handleEnd (R : Reporter ρ) (s : Loop ρ) (stop : Stop) : List Action × Loop ρ :=
  let signaled : Bool := stop.kind = .signaled
  let result := endResult stop
  let exited := emit R s (.processExited stop.pid result signaled) stop.pid
  let erased := { exited.2 with tasks := exited.2.tasks.erase stop.pid }
  if stop.pid = s.rootPid then
    let finished := emit R erased (.traceFinished stop.pid result signaled) stop.pid
    (exited.1 ++ finished.1,
      { finished.2 with returned := some (if signaled then 128 + result else result) })
  else (exited.1, erased)

/-- A clone, fork or vfork event of a registered task announces a child. -/
def announceChild (R : Reporter ρ) (s : Loop ρ) (stop : Stop) (message : Nat) :
    List Action × Loop ρ :=
  match s.tasks.find stop.pid with
  | none => ([], s)
  | some parent =>
    let childPid := toInt32 message
    let tasks := s.tasks.insertChild childPid stop.pid parent.fdTable
    emit R { s with tasks := tasks } (.processSpawned childPid stop.pid) stop.pid

/-- An exec event resets the phase of the task. -/
def resetPhase (tasks : TaskRegistry) (pid : Pid) : TaskRegistry :=
  match tasks.find pid with
  | none => tasks
  | some task => tasks.put pid { task with phase := .entry }

/-- A `PTRACE_EVENT_*` stop. -/
def handleEvent (R : Reporter ρ) (s : Loop ρ) (stop : Stop) (answers : Answers) :
    List Action × Loop ρ :=
  match answers.message with
  | .error _ => ([], { s with returned := some exitFailure })
  | .ok message =>
    let event := stop.ptraceEvent
    let announced :=
      if event = ptraceEventClone ∨ event = ptraceEventFork ∨ event = ptraceEventVfork then
        announceChild R s stop message
      else ([], s)
    let tasks :=
      if event = ptraceEventExec then resetPhase announced.2.tasks stop.pid
      else announced.2.tasks
    (announced.1, { announced.2 with tasks := tasks, resumeCurrent := true })

/-- A readable syscall stop of a registered task: its phase decides which way the stop
is decoded. -/
def decodeStop (R : Reporter ρ) (s : Loop ρ) (task : Task) (pid : Pid) (tracee : Tracee) :
    List Action × Loop ρ :=
  match task.phase with
  | .entry =>
    let decoded := SyscallDecoder.onEntry pid tracee
    let reported := emitOption R s decoded.2 pid
    (.onEntry pid :: reported.1,
      { reported.2 with
        tasks := reported.2.tasks.put pid { task with decoder := decoded.1, phase := .exit } })
  | .exit =>
    let decoded := task.decoder.onExit task.fdTable pid tracee
    let reported := emitOption R s decoded.2 pid
    (.onExit pid :: reported.1,
      { reported.2 with
        tasks := reported.2.tasks.put pid { task with fdTable := decoded.1, phase := .entry } })
  | .unknown => ([], { s with tasks := s.tasks.put pid { task with phase := .entry } })

/-- A syscall stop. -/
def handleSyscall (R : Reporter ρ) (s : Loop ρ) (stop : Stop) (answers : Answers) :
    List Action × Loop ρ :=
  match s.tasks.find stop.pid with
  | none => ([], { s with resumeCurrent := true })
  | some task =>
    match answers.tracee with
    | .error code =>
      if code = esrch then
        ([], { s with tasks := s.tasks.erase stop.pid, resumeCurrent := true })
      else ([], { s with returned := some exitFailure })
    | .ok tracee =>
      let decoded := decodeStop R s task stop.pid tracee
      (decoded.1, { decoded.2 with resumeCurrent := true })

/-- The part of an iteration after `waitpid`. -/
def handleStop (R : Reporter ρ) (s : Loop ρ) (stop : Stop) (answers : Answers) :
    List Action × Loop ρ :=
  match stop.kind with
  | .exited | .signaled => handleEnd R s stop
  | .ptraceEvent => handleEvent R s stop answers
  | .syscall => handleSyscall R s stop answers
  | .signal | .groupStop | .unknown =>
    ([], { s with pendingSignal := resumeSignal stop, resumeCurrent := true })

/-- One iteration of the loop of `trace::run`. -/
def step (R : Reporter ρ) (s : Loop ρ) (answers : Answers) : Option (List Action × Loop ρ) :=
  if s.returned.isSome ∨ s.tasks.isEmpty then none
  else
    let resumed := resumeStopped s answers
    if resumed.2.returned.isSome then some resumed
    else
      match answers.wait with
      | .error _ => some (resumed.1, { resumed.2 with returned := some exitFailure })
      | .ok (pid, status) =>
        let handled :=
          handleStop R { resumed.2 with currentPid := pid } (classifyStop pid status) answers
        some (resumed.1 ++ handled.1, handled.2)

/-- What `trace::run` writes to its standard error before the first event. -/
def tracingNotice (rootPid : Pid) : Text :=
  "[execell] tracing pid ".toList ++ Text.ofInt rootPid ++ ['\n']

/-- The first event. -/
def startedEvent (rootPid : Pid) : Event :=
  ⟨.traceStarted rootPid, { pid := rootPid, sequence := 0 }⟩

/-- The state in which the loop starts: the root is registered and `TraceStarted` has
been reported. -/
def start (R : Reporter ρ) (rootPid : Pid) (reporter : ρ) : List Action × Loop ρ :=
  emit R { rootPid := rootPid, tasks := ({} : TaskRegistry).insertRoot rootPid,
           currentPid := rootPid, reporter := reporter } (.traceStarted rootPid) rootPid

/-- The result of `trace::run` in a state of its loop; `none` while the loop goes on. -/
def Loop.result (s : Loop ρ) : Option Int :=
  match s.returned with
  | some code => some code
  | none => if s.tasks.isEmpty then some exitFailure else none

end ExeCell.Trace
