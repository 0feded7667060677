import ExeCell.Lib.Interleaving
import ExeCell.Trace.Effect
import ExeCell.Trace.Phase

/-!
# Tasks do not interfere

All tasks share the variables of the loop, and their stops arrive in an order that the
kernel chooses. What the tracer reports of a task nevertheless depends on the stops of that
task only, and on the descriptors its parent had when it announced the task: the tasks
of the tracer are a system in the sense of `Interleaving.System` (`find_registry_eq_step`),
and a run of the tracer is a run of that system (`run_turns`).
-/

namespace ExeCell.Trace

open Report

/-- A stop of a task: its status word, and what the tracer can ask the kernel about it. -/
structure TaskStop where
  status : Nat
  message : Nat := 0
  tracee : Tracee

/-- One stop in the order in which `waitpid` reports the stops of all tasks. The task
resumed before may have vanished. -/
structure Turn where
  pid : Pid
  stop : TaskStop
  resumedIsGone : Bool := false

def TaskStop.answers (stop : TaskStop) (pid : Pid) : Answers where
  wait := .ok (pid, stop.status)
  message := .ok stop.message
  tracee := .ok stop.tracee

def Turn.answers (turn : Turn) : Answers :=
  { turn.stop.answers turn.pid with
    resume := if turn.resumedIsGone then .error esrch else .ok () }

/-- The turn as a step of its task. -/
def Turn.step (turn : Turn) : Pid × TaskStop := (turn.pid, turn.stop)

namespace TaskStop

/-- What the stop calls for. -/
def effect (root pid : Pid) (entry : Option Task) (stop : TaskStop) : Effect :=
  effectOf root entry (classifyStop pid stop.status) (stop.answers pid)

/-- The child that the stop announces. -/
def announced (pid : Pid) (stop : TaskStop) : Option Pid :=
  let reported := classifyStop pid stop.status
  if reported.kind = .ptraceEvent ∧ announces reported.ptraceEvent then
    some (toInt32 stop.message)
  else none

/-- The task has ended. -/
def ends (pid : Pid) (stop : TaskStop) : Bool :=
  let reported := classifyStop pid stop.status
  reported.kind = .exited ∨ reported.kind = .signaled

end TaskStop

/-- The tasks of the tracer: the state of a task is its entry in the registry. -/
def taskSystem (root : Pid) : Interleaving.System Pid TaskStop Task Payload where
  next pid entry stop := (stop.effect root pid entry).entryAfter entry
  emits pid entry stop := (stop.effect root pid entry).payloads
  announced pid stop := stop.announced pid
  first pid entry stop := entry.map fun parent => childTask parent pid (toInt32 stop.message)

/-- The stops of one task, in order. -/
def taskStops (pid : Pid) (turns : List Turn) : List TaskStop :=
  Interleaving.stepsOf pid (turns.map Turn.step)

/-- The payloads of the events reported of one task. -/
def payloadsOf (pid : Pid) (actions : List Action) : List Payload :=
  ((reported actions).filter (·.context.pid = pid)).map (·.payload)

/-- Every task but the root stops only after it has been announced, no task is announced
twice, and the end of the root is the last stop. -/
structure InOrder (root : Pid) (turns : List Turn) : Prop where
  ordered : (taskSystem root).Ordered root (turns.map Turn.step)
  last : ∃ front turn, turns = front ++ [turn] ∧ turn.pid = root ∧ turn.stop.ends root = true ∧
    ∀ earlier ∈ front, earlier.pid = root → earlier.stop.ends root = false

/-! ## One iteration -/

section Step

variable {ρ : Type} {R : Reporter ρ} {s t : Loop ρ} {turn : Turn} {actions : List Action}

theorem child_effect {root pid : Pid} {entry : Option Task} {stop : TaskStop} :
    (stop.effect root pid entry).child = (stop.announced pid).bind fun child =>
      entry.map fun parent => (child, childTask parent pid child) := by
  unfold TaskStop.effect TaskStop.announced
  rw [child_effectOf_ok rfl, classifyStop_pid]
  dsimp only
  split <;> rfl

theorem announced_eq {pid child : Pid} {stop : TaskStop} (h : stop.announced pid = some child) :
    child = toInt32 stop.message := by
  unfold TaskStop.announced at h
  dsimp only at h
  split at h
  · exact (Option.some.inj h).symm
  · cases h

theorem payloadsOf_append (pid : Pid) (first second : List Action) :
    payloadsOf pid (first ++ second) = payloadsOf pid first ++ payloadsOf pid second := by
  unfold payloadsOf
  rw [reported_append, List.filter_append, List.map_append]

/-- Handling a stop is a step of the system of tasks. -/
theorem find_registry_eq_step {root : Pid} {tasks : TaskRegistry} :
    ((turn.stop.effect root turn.pid (tasks.find turn.pid)).registry tasks turn.pid).find =
      (taskSystem root).step tasks.find turn.step := by
  funext pid
  unfold Interleaving.System.step
  by_cases hpid : turn.pid = pid
  · subst hpid
    rw [if_pos (show turn.step.1 = turn.pid from rfl)]
    exact find_effectOf_self
  · rw [if_neg (show ¬ turn.step.1 = pid from hpid), find_registry_of_ne (Ne.symm hpid), child_effect]
    change _ = if turn.stop.announced turn.pid = some pid then
      (tasks.find pid).or ((tasks.find turn.pid).map fun parent =>
        childTask parent turn.pid (toInt32 turn.stop.message)) else tasks.find pid
    cases hchild : turn.stop.announced turn.pid with
    | none => rfl
    | some child =>
      have hmessage : child = toInt32 turn.stop.message := announced_eq hchild
      cases tasks.find turn.pid with
      | none =>
        rw [Option.map_none, Option.or_none, ite_self]
        rfl
      | some parent =>
        simp only [← hmessage, Option.some.injEq]
        exact TaskRegistry.find_emplace ..

/-- An iteration with a stop applies its effect, and reports what it calls for. -/
theorem step_turn (h : step R s turn.answers = some (actions, t)) :
    t = ((turn.stop.effect s.rootPid turn.pid (s.tasks.find turn.pid)).apply R
        { s.resumed with currentPid := turn.pid } turn.pid).2 ∧
      ∀ pid, payloadsOf pid actions = if turn.pid = pid then
        (turn.stop.effect s.rootPid turn.pid (s.tasks.find turn.pid)).payloads else [] := by
  obtain ⟨hevents, rfl⟩ := step_waited (resumeFailed_gone turn.resumedIsGone) rfl h
  refine ⟨rfl, ?_⟩
  intro pid
  unfold payloadsOf
  rw [hevents]
  split
  · rename_i heq
    rw [List.filter_eq_self.mpr, payload_eventsFrom]
    · rfl
    · intro event hmem
      exact decide_eq_true ((pid_of_mem_eventsFrom hmem).trans heq)
  · rename_i hne
    rw [List.filter_eq_nil_iff.mpr, List.map_nil]
    intro event hmem hpid
    exact hne ((pid_of_mem_eventsFrom hmem).symm.trans (of_decide_eq_true hpid))

theorem step_turn_find (h : step R s turn.answers = some (actions, t)) :
    t.rootPid = s.rootPid ∧ t.tasks.find = (taskSystem s.rootPid).step s.tasks.find turn.step := by
  obtain ⟨rfl, _⟩ := step_turn h
  rw [apply_rootPid, apply_tasks]
  exact ⟨rfl, find_registry_eq_step⟩

end Step

/-! ## Whole runs -/

section Runs

variable {ρ : Type} {R : Reporter ρ} {s t : Loop ρ} {turns : List Turn}
  {outputs : List (List Action)}

/-- A run of the tracer is a run of the system of tasks. -/
theorem run_turns (h : Machine.run (step R) s (turns.map Turn.answers) = some (outputs, t)) :
    t.tasks.find = (taskSystem s.rootPid).after s.tasks.find (turns.map Turn.step) ∧
      ∀ pid, payloadsOf pid outputs.flatten =
        (taskSystem s.rootPid).emitted pid s.tasks.find (turns.map Turn.step) := by
  induction turns generalizing s outputs with
  | nil =>
    cases h
    exact ⟨rfl, fun _ => rfl⟩
  | cons turn turns ih =>
    obtain ⟨actions, s', later, hstep, hrest, rfl⟩ := Machine.run_cons.mp h
    obtain ⟨hroot, hfind⟩ := step_turn_find hstep
    obtain ⟨hafter, hemitted⟩ := ih hrest
    rw [hroot, hfind] at hafter hemitted
    refine ⟨hafter, ?_⟩
    intro pid
    rw [List.flatten_cons, payloadsOf_append, hemitted, (step_turn hstep).2, List.map_cons,
      Interleaving.System.emitted]
    by_cases hpid : turn.pid = pid
    · subst hpid
      rw [if_pos rfl, if_pos (show turn.step.1 = turn.pid from rfl)]
      rfl
    · rw [if_neg hpid, if_neg (show ¬ turn.step.1 = pid from hpid)]

/-- Until the root ends the tracer goes on, and the root stays registered. -/
theorem live_step {turn : Turn} {actions : List Action} (hreturned : s.returned = none)
    (hroot : (s.tasks.find s.rootPid).isSome = true)
    (hlive : turn.pid = s.rootPid → turn.stop.ends s.rootPid = false)
    (h : step R s turn.answers = some (actions, t)) :
    t.returned = none ∧ (t.tasks.find s.rootPid).isSome = true := by
  have hkind : turn.pid = s.rootPid → (classifyStop turn.pid turn.stop.status).kind ≠ .exited ∧
      (classifyStop turn.pid turn.stop.status).kind ≠ .signaled := by
    intro hpid
    have hends := hlive hpid
    unfold TaskStop.ends at hends
    rw [hpid]
    simpa using hends
  constructor
  · obtain ⟨rfl, _⟩ := step_turn h
    have hgoesOn : (turn.stop.effect s.rootPid turn.pid (s.tasks.find turn.pid)).returned = none := by
      apply returned_effectOf rfl rfl
      rw [classifyStop_pid]
      intro hended hpid
      rcases hended with hended | hended
      · exact (hkind hpid).1 hended
      · exact (hkind hpid).2 hended
    rw [apply_returned, hgoesOn]
    exact hreturned
  · obtain ⟨_, hfind⟩ := step_turn_find h
    obtain ⟨task, htask⟩ := Option.isSome_iff_exists.mp hroot
    rw [hfind, Interleaving.System.step]
    split
    · rename_i hpid
      have hpid : turn.pid = s.rootPid := hpid
      have hkept : (turn.stop.effect s.rootPid s.rootPid (some task)).entry ≠ some none :=
        entry_effectOf_live rfl rfl (hpid ▸ hkind hpid)
      change ((turn.stop.effect s.rootPid s.rootPid (s.tasks.find s.rootPid)).entryAfter
        (s.tasks.find s.rootPid)).isSome = true
      rw [htask]
      unfold Effect.entryAfter
      cases hentry : (turn.stop.effect s.rootPid s.rootPid (some task)).entry with
      | none => rfl
      | some entry =>
        cases entry with
        | none => exact absurd hentry hkept
        | some task' => rfl
    · split
      · rw [htask]
        rfl
      · exact hroot

theorem exists_run (R : Reporter ρ) (hreturned : s.returned = none)
    (hroot : (s.tasks.find s.rootPid).isSome = true)
    (hlive : ∀ turn ∈ turns, turn.pid = s.rootPid → turn.stop.ends s.rootPid = false) :
    ∃ outputs t, Machine.run (step R) s (turns.map Turn.answers) = some (outputs, t) ∧
      t.returned = none ∧ (t.tasks.find s.rootPid).isSome = true := by
  induction turns generalizing s with
  | nil => exact ⟨[], s, rfl, hreturned, hroot⟩
  | cons turn turns ih =>
    obtain ⟨hnow, hlater⟩ := List.forall_mem_cons.mp hlive
    obtain ⟨actions, s', hstep⟩ := exists_step R turn.answers hreturned
      (TaskRegistry.isEmpty_of_find hroot)
    obtain ⟨hreturned', hroot'⟩ := live_step hreturned hroot hnow hstep
    obtain ⟨hrootPid, _⟩ := step_turn_find hstep
    rw [← hrootPid] at hlater hroot'
    obtain ⟨outputs, t, hrun, hend⟩ := ih hreturned' hroot' hlater
    rw [hrootPid] at hend
    exact ⟨actions :: outputs, t, Machine.run_cons.mpr ⟨_, _, _, hstep, hrun, rfl⟩, hend⟩

variable {root : Pid} {reporter : ρ}

/-- The tracer follows an order of stops to the end of the root. -/
theorem InOrder.exists_run (horder : InOrder root turns) (R : Reporter ρ) (reporter : ρ) :
    ∃ outputs t, Machine.run (Trace.step R) (start R root reporter).2 (turns.map Turn.answers) =
      some (outputs, t) := by
  obtain ⟨front, turn, rfl, _, _, hlive⟩ := horder.last
  have hroot : ((start R root reporter).2.tasks.find root).isSome = true := by
    rw [(start_find R root reporter).1]
    rfl
  obtain ⟨outputs, s, hrun, hreturned, hfind⟩ :=
    @Trace.exists_run ρ (start R root reporter).2 front R rfl hroot hlive
  obtain ⟨actions, t, hstep⟩ := exists_step R turn.answers hreturned
    (TaskRegistry.isEmpty_of_find hfind)
  refine ⟨outputs ++ [actions], t, ?_⟩
  rw [List.map_append]
  exact Machine.run_append.mpr ⟨outputs, s, hrun, [actions],
    Machine.run_cons.mpr ⟨_, _, _, hstep, rfl, rfl⟩, rfl⟩

/-- From the stop that announces it up to its first own stop a child has the descriptors
that its parent has at that stop. -/
def Inherits (R : Reporter ρ) (root : Pid) (reporter : ρ) (turns : List Turn) : Prop :=
  ∀ front turn middle rest child outputs outputs' s t,
    turns = front ++ turn :: middle ++ rest → turn.stop.announced turn.pid = some child →
    (∀ later ∈ middle, later.pid ≠ child) →
    Machine.run (step R) (start R root reporter).2 (front.map Turn.answers) = some (outputs, s) →
    Machine.run (step R) (start R root reporter).2 ((front ++ turn :: middle).map Turn.answers) =
      some (outputs', t) →
    (t.tasks.find child).map (·.fdTable) = (s.tasks.find turn.pid).map (·.fdTable)

theorem InOrder.inherits (horder : InOrder root turns) (R : Reporter ρ) (reporter : ρ) :
    Inherits R root reporter turns := by
  rintro front turn middle rest child outputs outputs' s t rfl hannounced hsilent hrun hrun'
  have hordered := horder.ordered
  rw [List.map_append, List.map_append, List.map_cons] at hordered
  obtain ⟨hs, _⟩ := run_turns hrun
  obtain ⟨ht, _⟩ := run_turns hrun'
  rw [List.map_append, List.map_cons] at ht
  have hsilent' : ∀ later ∈ middle.map Turn.step, later.1 ≠ child := by
    intro later hmem
    obtain ⟨turn', hmem', rfl⟩ := List.mem_map.mp hmem
    exact hsilent turn' hmem'
  obtain ⟨hchild, _⟩ := hordered.at_announcement hannounced (start_find R root reporter).2 hsilent'
  have htable : ∀ entry, ((taskSystem root).first turn.pid entry turn.stop).map (·.fdTable) =
      entry.map (·.fdTable) := by
    intro entry
    cases entry with
    | none => rfl
    | some parent => exact congrArg some (fdTable_childTask ..)
  rw [ht, hs]
  exact (congrArg (Option.map Task.fdTable) hchild).trans (htable _)

/-- Take any two orders of the same stops of each task, in both of which every child stops
only after it has been announced, no pid is announced twice and the end of the root comes
last. The tracer follows both to their ends, reports the same of each task, and lets every
child start with the descriptors of its parent. -/
theorem interleaving {ρ' : Type} {first second : List Turn} (hfirst : InOrder root first)
    (hsecond : InOrder root second) (hsame : ∀ pid, taskStops pid first = taskStops pid second)
    (R : Reporter ρ) (reporter : ρ) (R' : Reporter ρ') (reporter' : ρ') :
    ∃ outputs t outputs' t',
      Machine.run (step R) (start R root reporter).2 (first.map Turn.answers) =
        some (outputs, t) ∧
      Machine.run (step R') (start R' root reporter').2 (second.map Turn.answers) =
        some (outputs', t') ∧
      (∀ pid, payloadsOf pid ((start R root reporter).1 ++ outputs.flatten) =
        payloadsOf pid ((start R' root reporter').1 ++ outputs'.flatten)) ∧
      Inherits R root reporter first ∧ Inherits R' root reporter' second := by
  obtain ⟨outputs, t, hrun⟩ := hfirst.exists_run R reporter
  obtain ⟨outputs', t', hrun'⟩ := hsecond.exists_run R' reporter'
  refine ⟨outputs, t, outputs', t', hrun, hrun', ?_, hfirst.inherits R reporter,
    hsecond.inherits R' reporter'⟩
  intro pid
  obtain ⟨_, hemitted⟩ := run_turns hrun
  obtain ⟨_, hemitted'⟩ := run_turns hrun'
  rw [payloadsOf_append, payloadsOf_append, hemitted, hemitted']
  have hsteps := hfirst.ordered.emitted_eq (p := pid) hsecond.ordered hsame
    (start_find R root reporter).2
  exact congrArg (payloadsOf pid (start R root reporter).1 ++ ·) hsteps

end Runs

/-! ## A fork -/

/-- Task 100 forks task 101. -/
def forkTurn : Turn where
  pid := 100
  stop := { status := WaitStatus.ofStop ptraceEventFork sigTrap, message := 101, tracee := stoppedIn 57 }

/-- Task 101 enters `getpid`. -/
def childTurn : Turn where
  pid := 101
  stop := { status := WaitStatus.ofStop 0 (sigTrap ||| 0x80), tracee := stoppedIn 39 }

/-- Task 100 leaves `fork`. -/
def parentTurn : Turn where
  pid := 100
  stop := { status := WaitStatus.ofStop 0 (sigTrap ||| 0x80), tracee := stoppedIn 57 }

def exitTurn (pid : Pid) : Turn where
  pid := pid
  stop := { status := WaitStatus.ofExit 0, tracee := stoppedIn 231 }

theorem inOrder_fork {first second : Turn}
    (h : first = childTurn ∧ second = parentTurn ∨ first = parentTurn ∧ second = childTurn) :
    InOrder 100 [forkTurn, first, second, exitTurn 101, exitTurn 100] := by
  rcases h with ⟨rfl, rfl⟩ | ⟨rfl, rfl⟩
  · refine ⟨.of_take (by decide) (by decide),
      [forkTurn, childTurn, parentTurn, exitTurn 101], exitTurn 100, rfl, rfl, by decide, by decide⟩
  · refine ⟨.of_take (by decide) (by decide),
      [forkTurn, parentTurn, childTurn, exitTurn 101], exitTurn 100, rfl, rfl, by decide, by decide⟩

/-- The child may enter its first call before or after the parent has left `fork`. -/
theorem interleaving_fork :
    ∃ outputs t outputs' t',
      Machine.run (step nullReporter) (start nullReporter 100 ()).2
          ([forkTurn, childTurn, parentTurn, exitTurn 101, exitTurn 100].map Turn.answers) =
        some (outputs, t) ∧
      Machine.run (step nullReporter) (start nullReporter 100 ()).2
          ([forkTurn, parentTurn, childTurn, exitTurn 101, exitTurn 100].map Turn.answers) =
        some (outputs', t') ∧
      (∀ pid, payloadsOf pid ((start nullReporter 100 ()).1 ++ outputs.flatten) =
        payloadsOf pid ((start nullReporter 100 ()).1 ++ outputs'.flatten)) ∧
      Inherits nullReporter 100 () [forkTurn, childTurn, parentTurn, exitTurn 101, exitTurn 100] ∧
      Inherits nullReporter 100 () [forkTurn, parentTurn, childTurn, exitTurn 101, exitTurn 100] := by
  apply interleaving (inOrder_fork (Or.inl ⟨rfl, rfl⟩)) (inOrder_fork (Or.inr ⟨rfl, rfl⟩))
  intro pid
  by_cases hparent : (100 : Pid) = pid
  · subst hparent
    rfl
  · by_cases hchild : (101 : Pid) = pid
    · subst hchild
      rfl
    · simp [taskStops, Interleaving.stepsOf, Turn.step, forkTurn, childTurn, parentTurn, exitTurn,
        hparent, hchild]

end ExeCell.Trace
