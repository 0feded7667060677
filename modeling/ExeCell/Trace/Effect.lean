import ExeCell.Trace.Tracer

/-!
# What a stop makes the tracer do

`handleStop` mixes three things: what becomes of the entry of the stopped task, the events
that are reported, and the variables with which the loop goes on. Here they are taken
apart. `effectOf` says what a stop calls for, and looks at nothing but the stop and the
entry of its task: not at the reporter, not at the other tasks, and not at what is pending.
`Effect.apply` then does it.

* `handleStop_eq`: the tracer does what `effectOf` says.
* `step_cases`: an iteration fails before it has a stop, or resumes what it has to and
  applies the effect of the stop.
-/

namespace ExeCell.Trace

open Report

/-- What a stop calls for. -/
structure Effect where
  /-- The call of the decoder. -/
  calls : List Action := []
  /-- What is reported, in order. -/
  payloads : List Payload := []
  /-- What becomes of the entry of the task: nothing, or it is erased, or it is written. -/
  entry : Option (Option Task) := none
  /-- The child that is registered. -/
  child : Option (Pid × Task) := none
  /-- The signal that is left pending. -/
  signal : Option Nat := none
  resume : Bool := true
  returned : Option Int := none

/-- The event announces a child. -/
def announces (event : Nat) : Prop :=
  event = ptraceEventClone ∨ event = ptraceEventFork ∨ event = ptraceEventVfork

instance (event : Nat) : Decidable (announces event) := inferInstanceAs (Decidable (_ ∨ _))

/-- The entry that a child of this task gets. -/
def childTask (parent : Task) (parentPid childPid : Pid) : Task :=
  { pid := childPid, parentPid := parentPid, fdTable := parent.fdTable }

theorem fdTable_childTask (parent : Task) (parentPid childPid : Pid) :
    (childTask parent parentPid childPid).fdTable = parent.fdTable := rfl

/-- A task has ended. -/
def endEffect (root : Pid) (stop : Stop) : Effect :=
  let signaled : Bool := stop.kind = .signaled
  let result := endResult stop
  let exited : Payload := .processExited stop.pid result signaled
  if stop.pid = root then
    { payloads := [exited, .traceFinished stop.pid result signaled]
      entry := some none
      resume := false
      returned := some (if signaled then 128 + result else result) }
  else { payloads := [exited], entry := some none, resume := false }

/-- A `PTRACE_EVENT_*` stop. -/
def eventEffect (entry : Option Task) (stop : Stop) (answers : Answers) : Effect :=
  match answers.message, entry with
  | .error _, _ => { resume := false, returned := some exitFailure }
  | .ok _, none => {}
  | .ok message, some task =>
    if announces stop.ptraceEvent then
      { payloads := [.processSpawned (toInt32 message) stop.pid]
        child := some (toInt32 message, childTask task stop.pid (toInt32 message)) }
    else if stop.ptraceEvent = ptraceEventExec then
      { entry := some (some { task with phase := .entry }) }
    else {}

/-- A readable syscall stop of a registered task. -/
def decodeEffect (task : Task) (pid : Pid) (tracee : Tracee) : Effect :=
  match task.phase with
  | .entry =>
    let decoded := SyscallDecoder.onEntry pid tracee
    { calls := [.onEntry pid]
      payloads := decoded.2.toList
      entry := some (some { task with decoder := decoded.1, phase := .exit }) }
  | .exit =>
    let decoded := task.decoder.onExit task.fdTable pid tracee
    { calls := [.onExit pid]
      payloads := decoded.2.toList
      entry := some (some { task with fdTable := decoded.1, phase := .entry }) }
  | .unknown => { entry := some (some { task with phase := .entry }) }

/-- A syscall stop. -/
def syscallEffect (entry : Option Task) (stop : Stop) (answers : Answers) : Effect :=
  match entry, answers.tracee with
  | none, _ => {}
  | some _, .error code =>
    if code = esrch then { entry := some none }
    else { resume := false, returned := some exitFailure }
  | some task, .ok tracee => decodeEffect task stop.pid tracee

/-- What a stop of a task with this entry calls for. -/
def effectOf (root : Pid) (entry : Option Task) (stop : Stop) (answers : Answers) : Effect :=
  match stop.kind with
  | .exited | .signaled => endEffect root stop
  | .ptraceEvent => eventEffect entry stop answers
  | .syscall => syscallEffect entry stop answers
  | .signal | .groupStop | .unknown => { signal := some (resumeSignal stop) }

variable {ρ : Type} {R : Reporter ρ}

/-- Report the payloads one after another. -/
def emitAll (R : Reporter ρ) (s : Loop ρ) (pid : Pid) : List Payload → List Action × Loop ρ
  | [] => ([], s)
  | payload :: payloads =>
    let reported := emit R s payload pid
    let later := emitAll R reported.2 pid payloads
    (reported.1 ++ later.1, later.2)

/-- The registry after the effect of a stop of this task. -/
def Effect.registry (effect : Effect) (tasks : TaskRegistry) (pid : Pid) : TaskRegistry :=
  let tasks :=
    match effect.child with
    | none => tasks
    | some (childPid, child) => tasks.emplace childPid child
  match effect.entry with
  | none => tasks
  | some none => tasks.erase pid
  | some (some task) => tasks.put pid task

/-- Do what a stop of this task calls for. -/
def Effect.apply (effect : Effect) (R : Reporter ρ) (s : Loop ρ) (pid : Pid) :
    List Action × Loop ρ :=
  let reported := emitAll R s pid effect.payloads
  (effect.calls ++ reported.1,
    { reported.2 with
      tasks := effect.registry s.tasks pid
      pendingSignal := effect.signal.getD reported.2.pendingSignal
      resumeCurrent := effect.resume || s.resumeCurrent
      returned := effect.returned.or s.returned })

/-! ## The tracer does it -/

theorem handleEnd_eq (s : Loop ρ) (stop : Stop) :
    handleEnd R s stop = (endEffect s.rootPid stop).apply R s stop.pid := by
  unfold handleEnd endEffect
  dsimp only
  split <;> rfl

theorem handleEvent_eq (s : Loop ρ) (stop : Stop) (answers : Answers) :
    handleEvent R s stop answers =
      (eventEffect (s.tasks.find stop.pid) stop answers).apply R s stop.pid := by
  unfold handleEvent eventEffect
  cases answers.message with
  | error code => rfl
  | ok message =>
    dsimp only
    by_cases hannounces : stop.ptraceEvent = ptraceEventClone ∨
        stop.ptraceEvent = ptraceEventFork ∨ stop.ptraceEvent = ptraceEventVfork
    · -- no event announces a child and reports an exec
      have hexec : stop.ptraceEvent ≠ ptraceEventExec := by
        intro heq
        rw [heq] at hannounces
        exact absurd hannounces (by decide)
      rw [if_pos hannounces, if_neg hexec, announceChild]
      cases s.tasks.find stop.pid with
      | none => rfl
      | some task =>
        dsimp only
        rw [if_pos (show announces stop.ptraceEvent from hannounces)]
        rfl
    · rw [if_neg hannounces, resetPhase]
      cases s.tasks.find stop.pid with
      | none =>
        dsimp only
        rw [ite_self]
        rfl
      | some task =>
        dsimp only
        rw [if_neg (show ¬ announces stop.ptraceEvent from hannounces)]
        split <;> rfl

theorem decodeStop_eq (s : Loop ρ) (task : Task) (pid : Pid) (tracee : Tracee) :
    ((decodeStop R s task pid tracee).1,
      { (decodeStop R s task pid tracee).2 with resumeCurrent := true }) =
      (decodeEffect task pid tracee).apply R s pid := by
  unfold decodeStop decodeEffect
  cases task.phase with
  | entry =>
    generalize SyscallDecoder.onEntry pid tracee = decoded
    obtain ⟨decoder, payload⟩ := decoded
    cases payload <;> rfl
  | exit =>
    generalize task.decoder.onExit task.fdTable pid tracee = decoded
    obtain ⟨table, payload⟩ := decoded
    cases payload <;> rfl
  | unknown => rfl

theorem handleSyscall_eq (s : Loop ρ) (stop : Stop) (answers : Answers) :
    handleSyscall R s stop answers =
      (syscallEffect (s.tasks.find stop.pid) stop answers).apply R s stop.pid := by
  unfold handleSyscall syscallEffect
  cases s.tasks.find stop.pid with
  | none => rfl
  | some task =>
    cases answers.tracee with
    | error code =>
      dsimp only
      split <;> rfl
    | ok tracee => exact decodeStop_eq s task stop.pid tracee

/-- The tracer does what the stop calls for. -/
theorem handleStop_eq (s : Loop ρ) (stop : Stop) (answers : Answers) :
    handleStop R s stop answers =
      (effectOf s.rootPid (s.tasks.find stop.pid) stop answers).apply R s stop.pid := by
  unfold handleStop effectOf
  cases stop.kind with
  | exited => exact handleEnd_eq s stop
  | signaled => exact handleEnd_eq s stop
  | ptraceEvent => exact handleEvent_eq s stop answers
  | syscall => exact handleSyscall_eq s stop answers
  | signal => rfl
  | groupStop => rfl
  | unknown => rfl

/-! ## The end of a task -/

/-- A stop that is classified as the end of a task carries what a shell would report. -/
theorem classifyStop_ended {pid : Pid} {status : Nat}
    (hkind : (classifyStop pid status).kind = .exited ∨ (classifyStop pid status).kind = .signaled) :
    (classifyStop pid status).pid = pid ∧ WaitStatus.ifEnded status ∧
      (if (classifyStop pid status).kind = .signaled then 128 + endResult (classifyStop pid status)
        else endResult (classifyStop pid status)) =
          WaitStatus.shellStatus status exitFailure := by
  cases hexited : WaitStatus.ifExited status with
  | true => simp [classifyStop, endResult, WaitStatus.shellStatus, WaitStatus.ifEnded, hexited]
  | false =>
    cases hsignaled : WaitStatus.ifSignaled status with
    | true => simp [classifyStop, endResult, WaitStatus.shellStatus, WaitStatus.ifEnded, hexited, hsignaled]
    | false =>
      -- every other stop is classified as something else
      exfalso
      simp only [classifyStop, hexited, hsignaled, Bool.false_eq_true, if_false] at hkind
      split_ifs at hkind <;> simp at hkind

theorem kind_of_ifEnded (pid : Pid) {status : Nat} (h : WaitStatus.ifEnded status = true) :
    (classifyStop pid status).kind = .exited ∨ (classifyStop pid status).kind = .signaled := by
  rw [WaitStatus.ifEnded, Bool.or_eq_true] at h
  unfold classifyStop
  dsimp only
  by_cases hexited : WaitStatus.ifExited status = true
  · rw [if_pos hexited]
    exact Or.inl rfl
  · rw [if_neg hexited, if_pos (h.resolve_left hexited)]
    exact Or.inr rfl

/-! ## One iteration -/

/-- The resumption with which an iteration begins. -/
def Loop.resumption (s : Loop ρ) : List Action :=
  if s.resumeCurrent then [.resume s.currentPid s.pendingSignal] else []

/-- The loop behind that resumption. -/
def Loop.resumed (s : Loop ρ) : Loop ρ :=
  { s with
    pendingSignal := if s.resumeCurrent then 0 else s.pendingSignal
    resumeCurrent := false }

/-- The resumption with which an iteration begins fails, so that the iteration does not get
to wait. -/
def Loop.resumeFails (s : Loop ρ) (answers : Answers) : Bool :=
  s.resumeCurrent && resumeFailed answers.resume

/-- What the stop calls for that an iteration finds in this state. -/
def Loop.effectAt (s : Loop ρ) (pid : Pid) (status : Nat) (answers : Answers) : Effect :=
  effectOf s.rootPid (s.tasks.find pid) (classifyStop pid status) answers

theorem resumeStopped_eq (s : Loop ρ) (answers : Answers) :
    resumeStopped s answers =
      (s.resumption,
        { s.resumed with
          returned :=
            if s.resumeFails answers then some exitFailure else s.returned }) := by
  obtain ⟨rootPid, tasks, sequence, pendingSignal, currentPid, resumeCurrent, reporter, returned⟩ := s
  cases resumeCurrent <;> rfl

/-- What an iteration can do: fail to resume or to wait, or apply the effect of the stop it
has waited for. -/
theorem step_cases {s t : Loop ρ} {answers : Answers} {actions : List Action}
    (h : step R s answers = some (actions, t)) :
    s.returned = none ∧ s.tasks.isEmpty = false ∧
      ((s.resumeFails answers = true ∨ answers.wait.toOption = none) ∧
          actions = s.resumption ∧ t = { s.resumed with returned := some exitFailure } ∨
        ∃ pid status, s.resumeFails answers = false ∧ answers.wait = .ok (pid, status) ∧
          actions = s.resumption ++
            ((s.effectAt pid status answers).apply R { s.resumed with currentPid := pid } pid).1 ∧
          t = ((s.effectAt pid status answers).apply R { s.resumed with currentPid := pid } pid).2) := by
  unfold step at h
  split at h
  · cases h
  rename_i hlive
  rw [not_or] at hlive
  have hreturned : s.returned = none := by simpa using hlive.1
  refine ⟨hreturned, by simpa using hlive.2, ?_⟩
  dsimp only at h
  rw [resumeStopped_eq, hreturned] at h
  cases hfailed : s.resumeFails answers with
  | true =>
    rw [hfailed, if_pos rfl] at h
    obtain ⟨rfl, rfl⟩ := Prod.mk.inj (Option.some.inj h)
    exact Or.inl ⟨Or.inl rfl, rfl, rfl⟩
  | false =>
    have hsame : ({ s.resumed with returned := none } : Loop ρ) = s.resumed := by
      rw [← hreturned]
      rfl
    have hgoesOn : ¬ s.resumed.returned.isSome = true := hlive.1
    rw [hfailed, if_neg Bool.false_ne_true, hsame, if_neg hgoesOn] at h
    cases hwait : answers.wait with
    | error code =>
      rw [hwait] at h
      obtain ⟨rfl, rfl⟩ := Prod.mk.inj (Option.some.inj h)
      exact Or.inl ⟨Or.inr rfl, rfl, rfl⟩
    | ok stopped =>
      obtain ⟨pid, status⟩ := stopped
      rw [hwait] at h
      obtain ⟨rfl, rfl⟩ := Prod.mk.inj (Option.some.inj h)
      refine Or.inr ⟨pid, status, rfl, rfl, ?_⟩
      rw [handleStop_eq, classifyStop_pid]
      exact ⟨rfl, rfl⟩

/-- As long as the tracer has not returned and tasks are left, the loop goes on. -/
theorem exists_step {s : Loop ρ} (R : Reporter ρ) (answers : Answers)
    (hreturned : s.returned = none) (htasks : s.tasks.isEmpty = false) :
    ∃ actions t, step R s answers = some (actions, t) := by
  unfold step
  rw [if_neg (by simp [hreturned, htasks])]
  dsimp only
  split
  · exact ⟨_, _, rfl⟩
  · split
    · exact ⟨_, _, rfl⟩
    · exact ⟨_, _, rfl⟩

/-! ## The events of an effect -/

/-- The payloads as events of this task, numbered from `first` on. -/
def eventsFrom (first : Nat) (pid : Pid) : List Payload → List Event
  | [] => []
  | payload :: payloads =>
    ⟨payload, { pid := pid, sequence := first }⟩ :: eventsFrom ((first + 1) % 2 ^ 64) pid payloads

theorem payload_eventsFrom (first : Nat) (pid : Pid) (payloads : List Payload) :
    (eventsFrom first pid payloads).map (·.payload) = payloads := by
  induction payloads generalizing first with
  | nil => rfl
  | cons payload payloads ih => rw [eventsFrom, List.map_cons, ih]

theorem payload_of_mem_eventsFrom {first : Nat} {pid : Pid} {payloads : List Payload} {event : Event}
    (h : event ∈ eventsFrom first pid payloads) : event.payload ∈ payloads := by
  rw [← payload_eventsFrom first pid payloads]
  exact List.mem_map_of_mem h

theorem pid_of_mem_eventsFrom {first : Nat} {pid : Pid} {payloads : List Payload} {event : Event}
    (h : event ∈ eventsFrom first pid payloads) : event.context.pid = pid := by
  induction payloads generalizing first with
  | nil => cases h
  | cons payload payloads ih =>
    rw [eventsFrom, List.mem_cons] at h
    rcases h with rfl | h
    · rfl
    · exact ih h

section Apply

variable {s : Loop ρ} {pid : Pid} {payloads : List Payload} {effect : Effect}

theorem emitAll_actions :
    (emitAll R s pid payloads).1 = (eventsFrom s.sequence pid payloads).map .report := by
  induction payloads generalizing s with
  | nil => rfl
  | cons payload payloads ih =>
    rw [emitAll, eventsFrom, List.map_cons, ih]
    rfl

/-- What reporting leaves alone. -/
theorem emitAll_frame :
    (emitAll R s pid payloads).2.rootPid = s.rootPid ∧
      (emitAll R s pid payloads).2.currentPid = s.currentPid ∧
      (emitAll R s pid payloads).2.reporter =
        (eventsFrom s.sequence pid payloads).foldl R.report s.reporter := by
  induction payloads generalizing s with
  | nil => exact ⟨rfl, rfl, rfl⟩
  | cons payload payloads ih =>
    rw [emitAll, eventsFrom, List.foldl_cons]
    exact ih

@[simp] theorem apply_rootPid : (effect.apply R s pid).2.rootPid = s.rootPid :=
  emitAll_frame.1

@[simp] theorem apply_currentPid : (effect.apply R s pid).2.currentPid = s.currentPid :=
  emitAll_frame.2.1

@[simp] theorem apply_reporter :
    (effect.apply R s pid).2.reporter =
      (eventsFrom s.sequence pid effect.payloads).foldl R.report s.reporter :=
  emitAll_frame.2.2

@[simp] theorem apply_tasks : (effect.apply R s pid).2.tasks = effect.registry s.tasks pid := rfl

@[simp] theorem apply_returned : (effect.apply R s pid).2.returned = effect.returned.or s.returned :=
  rfl

@[simp] theorem apply_resumeCurrent :
    (effect.apply R s pid).2.resumeCurrent = (effect.resume || s.resumeCurrent) := rfl

theorem apply_pendingSignal :
    (effect.apply R s pid).2.pendingSignal =
      effect.signal.getD (emitAll R s pid effect.payloads).2.pendingSignal := rfl

theorem apply_actions :
    (effect.apply R s pid).1 =
      effect.calls ++ (eventsFrom s.sequence pid effect.payloads).map .report := by
  rw [Effect.apply, emitAll_actions]

end Apply

theorem rootPid_step {s t : Loop ρ} {answers : Answers} {actions : List Action}
    (h : step R s answers = some (actions, t)) : t.rootPid = s.rootPid := by
  obtain ⟨_, _, ⟨_, _, rfl⟩ | ⟨pid, status, _, _, _, rfl⟩⟩ := step_cases h
  · rfl
  · exact apply_rootPid

theorem rootPid_run {s t : Loop ρ} {inputs : List Answers} {outputs : List (List Action)}
    (h : Machine.run (step R) s inputs = some (outputs, t)) :
    t.rootPid = s.rootPid := by
  refine Machine.run_invariant (fun u : Loop ρ => u.rootPid = s.rootPid) ?_ rfl h
  intro u answers actions v hroot hstep
  exact (rootPid_step hstep).trans hroot

/-! ## What a stop can call for -/

section EffectOf

variable {root : Pid} {entry : Option Task} {stop : Stop} {answers : Answers}

/-- Only the decoder is called, and for the stopped task. -/
theorem calls_effectOf {action : Action} (h : action ∈ (effectOf root entry stop answers).calls) :
    action = .onEntry stop.pid ∨ action = .onExit stop.pid := by
  unfold effectOf endEffect eventEffect syscallEffect decodeEffect at h
  split at h <;> grind

/-- A signal is left pending only when nothing is reported, and the task is resumed with it. -/
theorem signal_effectOf (h : (effectOf root entry stop answers).signal ≠ none) :
    (effectOf root entry stop answers).payloads = [] ∧
      (effectOf root entry stop answers).resume = true ∧
      (effectOf root entry stop answers).signal = some (resumeSignal stop) := by
  unfold effectOf endEffect eventEffect syscallEffect decodeEffect at h ⊢
  grind

theorem payloads_endEffect : (endEffect root stop).payloads ≠ [] := by
  unfold endEffect
  dsimp only
  split
  · exact List.cons_ne_nil _ _
  · exact List.cons_ne_nil _ _

theorem entry_endEffect (root : Pid) (stop : Stop) : (endEffect root stop).entry = some none := by
  unfold endEffect
  dsimp only
  split <;> rfl

theorem child_endEffect (root : Pid) (stop : Stop) : (endEffect root stop).child = none := by
  unfold endEffect
  dsimp only
  split <;> rfl

/-- Decoding a stop keeps the entry of its task. -/
theorem decodeEffect_keeps (task : Task) (pid : Pid) (tracee : Tracee) :
    (decodeEffect task pid tracee).child = none ∧
      ∃ task', (decodeEffect task pid tracee).entry = some (some task') := by
  unfold decodeEffect
  cases task.phase with
  | entry => exact ⟨rfl, _, rfl⟩
  | exit => exact ⟨rfl, _, rfl⟩
  | unknown => exact ⟨rfl, _, rfl⟩

/-- Either the task is resumed, or the run is over, or the task has ended, which is
reported. -/
theorem resume_effectOf (h : (effectOf root entry stop answers).resume = false) :
    (effectOf root entry stop answers).returned.isSome = true ∨
      (stop.kind = .exited ∨ stop.kind = .signaled) ∧
        (effectOf root entry stop answers).payloads ≠ [] := by
  unfold effectOf endEffect eventEffect syscallEffect decodeEffect at h ⊢
  grind

/-- A task without an entry gets none by its own stops. -/
theorem entryAfter_effectOf_none :
    (effectOf root none stop answers).entry.getD none = none := by
  unfold effectOf endEffect eventEffect syscallEffect
  grind

/-- A child is registered at an event that announces it, of a registered task, and gets
the descriptors of that task. -/
theorem child_effectOf {childPid : Pid} {child : Task}
    (h : (effectOf root entry stop answers).child = some (childPid, child)) :
    ∃ parent message, entry = some parent ∧ answers.message = .ok message ∧
      stop.kind = .ptraceEvent ∧ announces stop.ptraceEvent ∧ childPid = toInt32 message ∧
      child = childTask parent stop.pid childPid ∧
      (effectOf root entry stop answers).entry = none ∧
      (effectOf root entry stop answers).payloads = [.processSpawned childPid stop.pid] := by
  unfold effectOf endEffect eventEffect syscallEffect decodeEffect at h ⊢
  grind

/-- An event that announces a child registers it, if its own task is registered. -/
theorem child_effectOf_ok {message : Nat} (hmessage : answers.message = .ok message) :
    (effectOf root entry stop answers).child =
      if stop.kind = .ptraceEvent ∧ announces stop.ptraceEvent then
        entry.map fun parent => (toInt32 message, childTask parent stop.pid (toInt32 message))
      else none := by
  unfold effectOf endEffect eventEffect syscallEffect decodeEffect
  cases hkind : stop.kind with
  | ptraceEvent =>
    rw [hmessage]
    cases entry with
    | none => exact (ite_self _).symm
    | some parent =>
      by_cases hannounces : announces stop.ptraceEvent
      · simp [hannounces]
      · simp only [hannounces]
        grind
  | _ => grind

/-- A task that has not ended keeps its entry, if the kernel answers all questions. -/
theorem entry_effectOf_live {message : Nat} {tracee : Tracee}
    (hmessage : answers.message = .ok message) (htracee : answers.tracee = .ok tracee)
    (hlive : stop.kind ≠ .exited ∧ stop.kind ≠ .signaled) :
    (effectOf root entry stop answers).entry ≠ some none := by
  unfold effectOf eventEffect syscallEffect decodeEffect
  grind

/-- The run goes on, if the kernel answers all questions, until the root has ended. -/
theorem returned_effectOf {message : Nat} {tracee : Tracee}
    (hmessage : answers.message = .ok message) (htracee : answers.tracee = .ok tracee)
    (hlive : stop.kind = .exited ∨ stop.kind = .signaled → stop.pid ≠ root) :
    (effectOf root entry stop answers).returned = none := by
  unfold effectOf endEffect eventEffect syscallEffect decodeEffect
  grind

end EffectOf

/-! ## The entries of the registry -/

/-- The entry that the effect leaves to a task that had this one. -/
def Effect.entryAfter (effect : Effect) (entry : Option Task) : Option Task :=
  effect.entry.getD entry

section Registry

variable {root pid other : Pid} {tasks : TaskRegistry} {stop : Stop} {answers : Answers}
  {effect : Effect}

theorem find_registry_self (hchild : effect.child ≠ none → (tasks.find pid).isSome = true) :
    (effect.registry tasks pid).find pid = effect.entryAfter (tasks.find pid) := by
  have hkept : (match effect.child with
      | none => tasks
      | some (childPid, child) => tasks.emplace childPid child).find pid = tasks.find pid := by
    split
    · rfl
    · rename_i childPid child heq
      obtain ⟨task, hfind⟩ := Option.isSome_iff_exists.mp (hchild (by rw [heq]; simp))
      rw [hfind]
      exact TaskRegistry.find_emplace_of_some hfind
  unfold Effect.registry Effect.entryAfter
  dsimp only
  split
  · rename_i hentry
    rw [hentry]
    exact hkept
  · rename_i hentry
    rw [hentry]
    exact TaskRegistry.find_erase_self _ _
  · rename_i task hentry
    rw [hentry]
    exact TaskRegistry.find_put_self _ _ _

theorem find_registry_of_ne (hne : other ≠ pid) :
    (effect.registry tasks pid).find other =
      match effect.child with
      | none => tasks.find other
      | some (childPid, child) => (tasks.emplace childPid child).find other := by
  unfold Effect.registry
  dsimp only
  cases effect.child with
  | none =>
    dsimp only
    split
    · rfl
    · exact TaskRegistry.find_erase_of_ne _ hne
    · exact TaskRegistry.find_put_of_ne _ _ hne
  | some child =>
    dsimp only
    split
    · rfl
    · exact TaskRegistry.find_erase_of_ne _ hne
    · exact TaskRegistry.find_put_of_ne _ _ hne

/-- The entry of the stopped task follows from the entry before and the stop. -/
theorem find_effectOf_self :
    ((effectOf root (tasks.find pid) stop answers).registry tasks pid).find pid =
      (effectOf root (tasks.find pid) stop answers).entryAfter (tasks.find pid) := by
  apply find_registry_self
  intro hchild
  obtain ⟨⟨childPid, child⟩, heq⟩ := Option.ne_none_iff_exists'.mp hchild
  obtain ⟨parent, _, hparent, _⟩ := child_effectOf heq
  rw [hparent]
  rfl

/-- The entry of another task stays as it is, unless the stop announces that task. -/
theorem find_effectOf_of_ne {entry : Option Task} (hne : other ≠ pid)
    (hchild : ∀ child, (effectOf root entry stop answers).child ≠ some (other, child)) :
    ((effectOf root entry stop answers).registry tasks pid).find other = tasks.find other := by
  rw [find_registry_of_ne hne]
  split
  · rfl
  · rename_i childPid child heq
    apply TaskRegistry.find_emplace_of_ne
    rintro rfl
    exact hchild child heq

end Registry

/-- At the start the root is registered, and no other task. -/
theorem start_find (R : Reporter ρ) (root : Pid) (reporter : ρ) :
    (start R root reporter).2.tasks.find root = some { pid := root } ∧
      ∀ pid, pid ≠ root → (start R root reporter).2.tasks.find pid = none := by
  have hempty : ∀ pid, ({} : TaskRegistry).find pid = none := fun pid => AList.lookup_empty pid
  constructor
  · exact TaskRegistry.find_emplace_of_none (hempty root)
  · intro pid hne
    exact (TaskRegistry.find_emplace_of_ne _ _ hne).trans (hempty pid)

/-! ## The events of an iteration -/

/-- The events among the actions. -/
def reported (actions : List Action) : List Event :=
  actions.filterMap fun
    | .report event => some event
    | _ => none

@[simp] theorem reported_append (first second : List Action) :
    reported (first ++ second) = reported first ++ reported second :=
  List.filterMap_append

@[simp] theorem reported_resumption (s : Loop ρ) : reported s.resumption = [] := by
  unfold Loop.resumption
  split <;> rfl

theorem reported_map_report (events : List Event) : reported (events.map .report) = events := by
  unfold reported
  rw [List.filterMap_map]
  exact List.filterMap_some

/-- Handling a stop reports what the stop calls for. -/
theorem reported_apply {root : Pid} {entry : Option Task} {stop : Stop} {answers : Answers}
    {s : Loop ρ} {pid : Pid} :
    reported ((effectOf root entry stop answers).apply R s pid).1 =
      eventsFrom s.sequence pid (effectOf root entry stop answers).payloads := by
  have hcalls : reported (effectOf root entry stop answers).calls = [] := by
    apply List.filterMap_eq_nil_iff.mpr
    intro action hmem
    rcases calls_effectOf hmem with rfl | rfl <;> rfl
  rw [apply_actions, reported_append, hcalls, reported_map_report, List.nil_append]

/-- What an iteration reports: nothing when it fails, and otherwise what the stop calls for. -/
theorem reported_step {s t : Loop ρ} {answers : Answers} {actions : List Action}
    (h : step R s answers = some (actions, t)) :
    ((s.resumeFails answers = true ∨ answers.wait.toOption = none) ∧ reported actions = [] ∧
        t = { s.resumed with returned := some exitFailure }) ∨
      ∃ pid status, s.resumeFails answers = false ∧ answers.wait = .ok (pid, status) ∧
        reported actions = eventsFrom s.sequence pid (s.effectAt pid status answers).payloads ∧
        t = ((s.effectAt pid status answers).apply R { s.resumed with currentPid := pid } pid).2 := by
  obtain ⟨_, _, ⟨hfailed, rfl, rfl⟩ | ⟨pid, status, hresumed, hwait, rfl, rfl⟩⟩ := step_cases h
  · exact Or.inl ⟨hfailed, reported_resumption s, rfl⟩
  · refine Or.inr ⟨pid, status, hresumed, hwait, ?_, rfl⟩
    rw [reported_append, reported_resumption, List.nil_append, Loop.effectAt, reported_apply]
    rfl

/-- The task that is resumed may be gone. -/
theorem resumeFailed_gone (gone : Bool) :
    resumeFailed (if gone then .error esrch else .ok ()) = false := by
  cases gone <;> rfl

/-- An iteration that gets a stop applies its effect. -/
theorem step_waited {s t : Loop ρ} {answers : Answers} {actions : List Action} {pid : Pid}
    {status : Nat} (hresume : resumeFailed answers.resume = false)
    (hwait : answers.wait = .ok (pid, status)) (h : step R s answers = some (actions, t)) :
    reported actions = eventsFrom s.sequence pid (s.effectAt pid status answers).payloads ∧
      t = ((s.effectAt pid status answers).apply R { s.resumed with currentPid := pid } pid).2 := by
  obtain ⟨hfailed | hfailed, _, _⟩ | ⟨pid', status', _, hwait', hevents, ht⟩ := reported_step h
  · rw [Loop.resumeFails, hresume, Bool.and_false] at hfailed
    cases hfailed
  · rw [hwait] at hfailed
    cases hfailed
  · obtain ⟨rfl, rfl⟩ := Prod.mk.inj (Except.ok.inj (hwait.symm.trans hwait'))
    exact ⟨hevents, ht⟩

end ExeCell.Trace
