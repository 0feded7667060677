import ExeCell.Trace.Descriptors
import ExeCell.Trace.Interleaving

/-!
# Threads share their descriptors

The tasks of one process have one descriptor table. The tracer gives every task a copy of
its own, which is taken when the task is announced. `SharedView` runs the tracer beside the
same tracer with one table for all tasks of the process, and keeps account of which copies
are current. A read, write or close of a descriptor whose copy is current is reported as with
the one table (`attributed_of_current`); other copies can be anything.
-/

namespace ExeCell.Trace

open Report

/-- The task with another table. -/
def Task.withTable (task : Task) (table : FdTable) : Task := { task with fdTable := table }

namespace TaskStop

/-- The stop is decoded as the exit of a call: what the decoder has kept of the call, and its
result. -/
def exits (pid : Pid) (entry : Option Task) (stop : TaskStop) : Option (SyscallDecoder × Int) :=
  match entry with
  | none => none
  | some task =>
    if (classifyStop pid stop.status).kind = .syscall ∧ task.phase = .exit then
      some (task.decoder, (decodeFrame stop.tracee.registers).result)
    else none

/-- What the stop does to the table of its task. -/
def op (pid : Pid) (entry : Option Task) (stop : TaskStop) : Bindings.Op Int Text :=
  match stop.exits pid entry with
  | none => .keep
  | some (decoder, result) => decoder.op result

/-- What the stop calls for if its task uses this table. -/
def sharedEffect (root pid : Pid) (entry : Option Task) (shared : FdTable) (stop : TaskStop) :
    Effect :=
  stop.effect root pid (entry.map (·.withTable shared))

/-- The table after that. -/
def sharedAfter (root pid : Pid) (entry : Option Task) (shared : FdTable) (stop : TaskStop) :
    FdTable :=
  match (stop.sharedEffect root pid entry shared).entry with
  | some (some task) => task.fdTable
  | _ => shared

end TaskStop

/-! ## One stop -/

section Stop

variable {root pid : Pid} {task : Task} {stop : TaskStop} {shared : FdTable}

theorem exits_of_kind_ne {entry : Option Task}
    (h : (classifyStop pid stop.status).kind ≠ .syscall) : stop.exits pid entry = none := by
  cases entry with
  | none => rfl
  | some task => exact if_neg fun hc => h hc.1

theorem exits_of_phase_ne (h : task.phase ≠ .exit) : stop.exits pid (some task) = none :=
  if_neg fun hc => h hc.2

theorem exits_of_phase (hkind : (classifyStop pid stop.status).kind = .syscall)
    (hphase : task.phase = .exit) :
    stop.exits pid (some task) =
      some (task.decoder, (decodeFrame stop.tracee.registers).result) :=
  if_pos ⟨hkind, hphase⟩

theorem op_eq_keep {entry : Option Task} (h : stop.exits pid entry = none) :
    stop.op pid entry = .keep := by
  unfold TaskStop.op
  rw [h]

/-- A stop that announces a task is not one of a call. -/
theorem op_of_announced {entry : Option Task} {child : Pid} (h : stop.announced pid = some child) :
    stop.op pid entry = .keep := by
  apply op_eq_keep
  apply exits_of_kind_ne
  intro hkind
  unfold TaskStop.announced at h
  dsimp only at h
  rw [hkind, if_neg fun hc => absurd hc.1 (by decide)] at h
  cases h

/-- Decoding a stop does to the table what the stop does. -/
theorem decodeEffect_table (hkind : (classifyStop pid stop.status).kind = .syscall) :
    ∃ task', (decodeEffect task pid stop.tracee).entry = some (some task') ∧
      task'.fdTable.lookup = (stop.op pid (some task)).apply task.fdTable.lookup := by
  unfold decodeEffect
  cases hphase : task.phase with
  | entry =>
    refine ⟨_, rfl, ?_⟩
    rw [op_eq_keep (exits_of_phase_ne (by rw [hphase]; decide))]
    rfl
  | exit =>
    refine ⟨_, rfl, ?_⟩
    unfold TaskStop.op
    rw [exits_of_phase hkind hphase]
    exact onExit_lookup ..
  | unknown =>
    refine ⟨_, rfl, ?_⟩
    rw [op_eq_keep (exits_of_phase_ne (by rw [hphase]; decide))]
    rfl

/-- What becomes of the table with the stop: it is written, or the stop leaves it alone. -/
theorem effect_table :
    (∃ task', (stop.effect root pid (some task)).entry = some (some task') ∧
      task'.fdTable.lookup = (stop.op pid (some task)).apply task.fdTable.lookup) ∨
    ((stop.effect root pid (some task)).entry = none ∨
      (stop.effect root pid (some task)).entry = some none) ∧
      stop.op pid (some task) = .keep := by
  by_cases hkind : (classifyStop pid stop.status).kind = .syscall
  · obtain ⟨task', hentry, htable⟩ := @decodeEffect_table pid task stop hkind
    refine .inl ⟨task', ?_, htable⟩
    rw [← hentry]
    unfold TaskStop.effect effectOf
    rw [hkind]
    unfold syscallEffect
    rw [classifyStop_pid]
    rfl
  · rw [op_eq_keep (exits_of_kind_ne hkind)]
    unfold TaskStop.effect effectOf
    cases hkind' : (classifyStop pid stop.status).kind with
    | exited => exact .inr ⟨.inr (entry_endEffect root _), rfl⟩
    | signaled => exact .inr ⟨.inr (entry_endEffect root _), rfl⟩
    | syscall => exact absurd hkind' hkind
    | ptraceEvent =>
      dsimp only [eventEffect, TaskStop.answers]
      split
      · exact .inr ⟨.inl rfl, rfl⟩
      · split
        · exact .inl ⟨_, rfl, rfl⟩
        · exact .inr ⟨.inl rfl, rfl⟩
    | signal => exact .inr ⟨.inl rfl, rfl⟩
    | groupStop => exact .inr ⟨.inl rfl, rfl⟩
    | unknown => exact .inr ⟨.inl rfl, rfl⟩

/-- The table of a task after a stop of its own. -/
theorem entryAfter_table {task' : Task}
    (h : (stop.effect root pid (some task)).entryAfter (some task) = some task') :
    task'.fdTable.lookup = (stop.op pid (some task)).apply task.fdTable.lookup := by
  unfold Effect.entryAfter at h
  obtain ⟨written, hentry, htable⟩ | ⟨hentry | hentry, hop⟩ := @effect_table root pid task stop
  · rw [hentry] at h
    obtain rfl := Option.some.inj h
    exact htable
  · rw [hentry] at h
    obtain rfl := Option.some.inj h
    rw [hop]
    rfl
  · rw [hentry] at h
    cases h

/-- The table of the process after a stop of one of its tasks. -/
theorem sharedAfter_lookup {entry : Option Task} :
    (stop.sharedAfter root pid entry shared).lookup = (stop.op pid entry).apply shared.lookup := by
  unfold TaskStop.sharedAfter TaskStop.sharedEffect
  cases entry with
  | none =>
    have hnone : (stop.effect root pid none).entry.getD none = none := entryAfter_effectOf_none
    rw [Option.map_none]
    cases hentry : (stop.effect root pid none).entry with
    | none => rfl
    | some written =>
      rw [hentry] at hnone
      obtain rfl : written = none := hnone
      rfl
  | some task =>
    rw [Option.map_some]
    obtain ⟨written, hentry, htable⟩ | ⟨hentry | hentry, hop⟩ :=
      @effect_table root pid (task.withTable shared) stop
    · rw [hentry]
      exact htable
    · have hkeep : stop.op pid (some task) = .keep := hop
      rw [hentry, hkeep]
      rfl
    · have hkeep : stop.op pid (some task) = .keep := hop
      rw [hentry, hkeep]
      rfl

end Stop

/-! ## The tracer beside the one with a shared table -/

/-- The tasks of the tracer, the one table of a process, and for which descriptors the copy
of a task is current. -/
structure SharedView where
  find : Pid → Option Task
  shared : FdTable
  current : Pid → Int → Prop

namespace SharedView

variable (root : Pid) (member : Pid → Bool)

/-- What a task opens, duplicates or closes is current for itself only; a task that is
announced has the copies of the one that announces it. -/
def currentStep (view : SharedView) (turn : Turn) : Pid → Int → Prop :=
  let current := Bindings.CurrentAfter view.current turn.pid
    (turn.stop.op turn.pid (view.find turn.pid))
  match turn.stop.announced turn.pid with
  | none => current
  | some child =>
    if (view.find child).isSome then current
    else Function.update current child (current turn.pid)

/-- A turn. The tasks that are not members of the process have no part in its table. -/
def step (view : SharedView) (turn : Turn) : SharedView :=
  { find := (taskSystem root).step view.find turn.step
    shared :=
      if member turn.pid then
        turn.stop.sharedAfter root turn.pid (view.find turn.pid) view.shared
      else view.shared
    current := if member turn.pid then view.currentStep turn else view.current }

def after (view : SharedView) (turns : List Turn) : SharedView :=
  turns.foldl (step root member) view

/-- The copies that are current are as good as the table. -/
def Agrees (view : SharedView) : Prop :=
  ∀ pid task, view.find pid = some task → member pid = true → ∀ fd, view.current pid fd →
    task.fdTable.lookup fd = view.shared.lookup fd

variable {root member} {view : SharedView} {turn : Turn}

theorem after_find (view : SharedView) (turns : List Turn) :
    (view.after root member turns).find =
      (taskSystem root).after view.find (turns.map Turn.step) := by
  induction turns generalizing view with
  | nil => rfl
  | cons turn turns ih => exact ih _

/-- The copies of a task that is not announced now. -/
theorem currentStep_of_registered {pid : Pid} {fd : Int}
    (h : turn.stop.announced turn.pid = some pid → (view.find pid).isSome = true)
    (hcurrent : view.currentStep turn pid fd) :
    Bindings.CurrentAfter view.current turn.pid (turn.stop.op turn.pid (view.find turn.pid))
      pid fd := by
  unfold currentStep at hcurrent
  cases hannounced : turn.stop.announced turn.pid with
  | none =>
    rw [hannounced] at hcurrent
    exact hcurrent
  | some child =>
    rw [hannounced] at hcurrent
    dsimp only at hcurrent
    split at hcurrent
    · exact hcurrent
    · rename_i hfresh
      have hne : pid ≠ child := by
        rintro rfl
        exact hfresh (h hannounced)
      rw [Function.update_of_ne hne] at hcurrent
      exact hcurrent

theorem step_shared_lookup (h : member turn.pid = true) :
    (view.step root member turn).shared.lookup =
      (turn.stop.op turn.pid (view.find turn.pid)).apply view.shared.lookup := by
  unfold step
  dsimp only
  rw [if_pos h]
  exact sharedAfter_lookup

/-- The task that has stopped. -/
theorem agrees_self {task : Task} {fd : Int} (hagrees : view.Agrees member)
    (hmember : member turn.pid = true)
    (hfind : (view.step root member turn).find turn.pid = some task)
    (hcurrent : view.currentStep turn turn.pid fd) :
    task.fdTable.lookup fd = (view.step root member turn).shared.lookup fd := by
  have hafter : (turn.stop.effect root turn.pid (view.find turn.pid)).entryAfter
      (view.find turn.pid) = some task := by
    have hself : (view.step root member turn).find turn.pid =
        (turn.stop.effect root turn.pid (view.find turn.pid)).entryAfter (view.find turn.pid) :=
      if_pos rfl
    rw [← hself, hfind]
  rw [step_shared_lookup hmember]
  cases hentry : view.find turn.pid with
  | none =>
    have hnone : (turn.stop.effect root turn.pid none).entryAfter none = none :=
      entryAfter_effectOf_none
    rw [hentry, hnone] at hafter
    cases hafter
  | some old =>
    have hregistered : turn.stop.announced turn.pid = some turn.pid →
        (view.find turn.pid).isSome = true := by
      intro _
      rw [hentry]
      rfl
    have hstill := currentStep_of_registered hregistered hcurrent
    rw [hentry] at hafter hstill
    rw [entryAfter_table hafter]
    exact Bindings.apply_current (hagrees turn.pid old hentry hmember) hstill

/-- A task that is announced starts with the table of the one that announces it. -/
theorem agrees_announced {child : Pid} {task : Task} {fd : Int} (hagrees : view.Agrees member)
    (hmember : member turn.pid = true) (hne : turn.pid ≠ child)
    (hannounced : turn.stop.announced turn.pid = some child) (hfresh : view.find child = none)
    (hfind : (view.step root member turn).find child = some task)
    (hcurrent : view.currentStep turn child fd) :
    task.fdTable.lookup fd = (view.step root member turn).shared.lookup fd := by
  have hfirst : (view.find turn.pid).map
      (fun parent => childTask parent turn.pid (toInt32 turn.stop.message)) = some task := by
    have hchild : (view.step root member turn).find child = (view.find child).or
        ((view.find turn.pid).map
          fun parent => childTask parent turn.pid (toInt32 turn.stop.message)) := by
      exact (if_neg hne).trans (if_pos hannounced)
    rw [← hfind, hchild, hfresh, Option.none_or]
  obtain ⟨parent, hparent, rfl⟩ := Option.map_eq_some_iff.mp hfirst
  have hop : ∀ entry, turn.stop.op turn.pid entry = .keep := fun _ => op_of_announced hannounced
  rw [step_shared_lookup hmember, hop, fdTable_childTask]
  unfold currentStep at hcurrent
  rw [hannounced, hop] at hcurrent
  dsimp only at hcurrent
  rw [hfresh, if_neg (by decide), Function.update_self] at hcurrent
  exact hagrees turn.pid parent hparent hmember fd (hcurrent.2 id)

/-- The stop leaves the entry of another task alone. -/
theorem agrees_other {pid : Pid} {task : Task} {fd : Int} (hagrees : view.Agrees member)
    (hpid : member pid = true) (hne : pid ≠ turn.pid) (hfind : view.find pid = some task)
    (hcurrent : (view.step root member turn).current pid fd) :
    task.fdTable.lookup fd = (view.step root member turn).shared.lookup fd := by
  unfold step at hcurrent
  dsimp only at hcurrent
  by_cases hmember : member turn.pid = true
  · rw [if_pos hmember] at hcurrent
    rw [step_shared_lookup hmember]
    refine Bindings.kept_current hne (hagrees pid task hfind hpid)
      (currentStep_of_registered ?_ hcurrent)
    intro _
    rw [hfind]
    rfl
  · rw [if_neg hmember] at hcurrent
    unfold step
    dsimp only
    rw [if_neg hmember]
    exact hagrees pid task hfind hpid fd hcurrent

/-- A turn keeps the current copies as good as the table, if a member is announced by
members only. -/
theorem Agrees.step (hagrees : view.Agrees member)
    (hclone : ∀ child, turn.stop.announced turn.pid = some child → member child = true →
      member turn.pid = true) : (view.step root member turn).Agrees member := by
  intro pid task hfind hpid fd hcurrent
  by_cases hself : turn.pid = pid
  · subst hself
    have hcurrent' : view.currentStep turn turn.pid fd := by
      unfold SharedView.step at hcurrent
      dsimp only at hcurrent
      rw [if_pos hpid] at hcurrent
      exact hcurrent
    exact agrees_self hagrees hpid hfind hcurrent'
  by_cases hnew : turn.stop.announced turn.pid = some pid ∧ view.find pid = none
  · obtain ⟨hannounced, hfresh⟩ := hnew
    have hmember := hclone pid hannounced hpid
    have hcurrent' : view.currentStep turn pid fd := by
      unfold SharedView.step at hcurrent
      dsimp only at hcurrent
      rw [if_pos hmember] at hcurrent
      exact hcurrent
    exact agrees_announced hagrees hmember hself hannounced hfresh hfind hcurrent'
  · have hkept : (view.step root member turn).find pid = view.find pid := by
      refine (if_neg hself).trans ?_
      by_cases hannounced : turn.stop.announced turn.pid = some pid
      · refine (if_pos hannounced).trans ?_
        cases hentry : view.find pid with
        | none => exact absurd ⟨hannounced, hentry⟩ hnew
        | some found => rfl
      · exact if_neg hannounced
    rw [hkept] at hfind
    exact agrees_other hagrees hpid (Ne.symm hself) hfind hcurrent

theorem Agrees.after {turns : List Turn} (hagrees : view.Agrees member)
    (hclones : ∀ turn ∈ turns, ∀ child, turn.stop.announced turn.pid = some child →
      member child = true → member turn.pid = true) :
    (view.after root member turns).Agrees member := by
  induction turns generalizing view with
  | nil => exact hagrees
  | cons turn turns ih =>
    obtain ⟨hclone, hclones⟩ := List.forall_mem_cons.mp hclones
    exact ih (hagrees.step hclone) hclones

end SharedView

/-! ## Attribution -/

/-- `read`, `write` and `close` in all their forms. -/
def transferCalls : List Int :=
  [Sys.read, Sys.pread64, Sys.readv, Sys.write, Sys.pwrite64, Sys.writev, Sys.close]

/-- The stop is the exit of a read, write or close. -/
def TaskStop.isTransfer (pid : Pid) (entry : Option Task) (stop : TaskStop) : Prop :=
  ∃ decoder result, stop.exits pid entry = some (decoder, result) ∧
    decoder.currentSyscall ∈ transferCalls

section Attribution

variable {ρ : Type} {R : Reporter ρ}

/-- The view after turns that begin in this state, where the members of the process have the
table `shared` and every copy is current. -/
def Loop.viewAfter (s : Loop ρ) (member : Pid → Bool) (shared : FdTable) (turns : List Turn) :
    SharedView :=
  SharedView.after s.rootPid member
    { find := s.tasks.find, shared := shared, current := fun _ _ => True } turns

/-- Every read, write and close of a member of the process is reported as with one table for
all members. -/
def Attributed (R : Reporter ρ) (s : Loop ρ) (member : Pid → Bool) (shared : FdTable)
    (turns : List Turn) : Prop :=
  ∀ front turn rest outputs t actions t', turns = front ++ turn :: rest →
    Machine.run (step R) s (front.map Turn.answers) = some (outputs, t) →
    step R t turn.answers = some (actions, t') → member turn.pid = true →
    turn.stop.isTransfer turn.pid (t.tasks.find turn.pid) →
    payloadsOf turn.pid actions =
      (turn.stop.sharedEffect s.rootPid turn.pid (t.tasks.find turn.pid)
        (s.viewAfter member shared front).shared).payloads

/-- No member reads, writes or closes a descriptor that another member has opened,
duplicated or closed since its own copy of it was made. -/
def UsesCurrent (s : Loop ρ) (member : Pid → Bool) (shared : FdTable) (turns : List Turn) : Prop :=
  ∀ front turn rest, turns = front ++ turn :: rest → member turn.pid = true →
    ∀ decoder result,
      turn.stop.exits turn.pid ((s.viewAfter member shared front).find turn.pid) =
        some (decoder, result) →
      decoder.transfers result →
      (s.viewAfter member shared front).current turn.pid decoder.pendingFd

theorem payloads_effect_of_exits {root pid : Pid} {task : Task} {stop : TaskStop}
    {decoder : SyscallDecoder} {result : Int}
    (h : stop.exits pid (some task) = some (decoder, result)) :
    (stop.effect root pid (some task)).payloads =
      (decoder.onExit task.fdTable pid stop.tracee).2.toList ∧
    result = (decodeFrame stop.tracee.registers).result := by
  unfold TaskStop.exits at h
  dsimp only at h
  split at h
  · rename_i hexit
    obtain ⟨rfl, rfl⟩ := Prod.mk.inj (Option.some.inj h)
    refine ⟨?_, rfl⟩
    unfold TaskStop.effect effectOf
    rw [hexit.1]
    unfold syscallEffect
    rw [classifyStop_pid]
    dsimp only [TaskStop.answers, decodeEffect]
    rw [hexit.2]
  · cases h

/-- While every task uses descriptors that are current for it, what the tracer reports is
what it would report with one table for the process. -/
theorem attributed_of_current {s : Loop ρ} {member : Pid → Bool} {shared : FdTable}
    {turns : List Turn}
    (hstart : ∀ pid task, s.tasks.find pid = some task → member pid = true →
      task.fdTable = shared)
    (hclones : ∀ turn ∈ turns, ∀ child, turn.stop.announced turn.pid = some child →
      member child = true → member turn.pid = true)
    (huses : UsesCurrent s member shared turns) : Attributed R s member shared turns := by
  rintro front turn rest outputs t actions t' rfl hrun hstep hmember htransfer
  obtain ⟨decoder, result, hexits, hcall⟩ := htransfer
  have hview : (s.viewAfter member shared front).find = t.tasks.find := by
    rw [(run_turns hrun).1]
    exact SharedView.after_find _ front
  have hagrees : (s.viewAfter member shared front).Agrees member := by
    refine SharedView.Agrees.after ?_ ?_
    · intro pid task htask hpid fd _
      rw [hstart pid task htask hpid]
    · intro earlier hmem
      exact hclones earlier (List.mem_append_left _ hmem)
  have hcurrent := huses front turn rest rfl hmember decoder result
  rw [hview] at hcurrent
  rw [(step_turn hstep).2, if_pos rfl, rootPid_run hrun]
  unfold TaskStop.sharedEffect
  cases hentry : t.tasks.find turn.pid with
  | none =>
    rw [hentry] at hexits
    cases hexits
  | some task =>
    rw [hentry] at hexits hcurrent
    rw [← hview] at hentry
    have hshared : turn.stop.exits turn.pid
        (some (task.withTable (s.viewAfter member shared front).shared)) =
          some (decoder, result) := hexits
    obtain ⟨hown, hresult⟩ := payloads_effect_of_exits hexits
    rw [Option.map_some, hown, (payloads_effect_of_exits hshared).1]
    refine congrArg Option.toList (onExit_event_congr ?_ ?_)
    · intro hfchmod
      rw [hfchmod] at hcall
      exact absurd hcall (by decide)
    · rw [← hresult]
      intro htransfers
      exact hagrees turn.pid task hentry hmember _ (hcurrent hexits htransfers)

end Attribution

/-! ## A file that only one thread has opened -/

section Example

/-- A task enters a call; the kernel has put `-ENOSYS` in the place of the result. -/
def enterTurn (pid : Pid) (number rdi rsi : Nat) : Turn where
  pid := pid
  stop := { status := WaitStatus.ofStop 0 (sigTrap ||| 0x80),
            tracee := {
              registers := { origRax := number, rax := 2 ^ 64 - 38, rdi := rdi, rsi := rsi }
              memory := pathMemory } }

/-- A task leaves a call. -/
def leaveTurn (pid : Pid) (number rdi rsi result : Nat) : Turn where
  pid := pid
  stop := { status := WaitStatus.ofStop 0 (sigTrap ||| 0x80),
            tracee := {
              registers := { origRax := number, rax := result, rdi := rdi, rsi := rsi }
              memory := pathMemory } }

def eventTurn (pid : Pid) (event message : Nat) : Turn where
  pid := pid
  stop := { status := WaitStatus.ofStop event sigTrap, message := message,
            tracee := { registers := {}, memory := pathMemory } }

/-- Task 100 runs its program, which forks task 101. -/
def forkTurns : List Turn :=
  [enterTurn 100 59 4096 0, eventTurn 100 ptraceEventExec 100, leaveTurn 100 59 0 0 0,
    enterTurn 100 57 0 0, eventTurn 100 ptraceEventFork 101, leaveTurn 100 57 0 0 101]

/-- Task 101 starts thread 102 with `CLONE_FILES` and opens `/f` as 3. The thread reads
ten bytes from 3. -/
def threadTurns : List Turn :=
  [enterTurn 101 56 0x50f00 0, eventTurn 101 ptraceEventClone 102, leaveTurn 101 56 0x50f00 0 102,
    enterTurn 101 2 4096 0, leaveTurn 101 2 4096 0 3, enterTurn 102 0 3 0, leaveTurn 102 0 3 0 10]

def threadMember (pid : Pid) : Bool := pid = 101 || pid = 102

/-- The tasks of the tracer after turns. -/
def tasksAfter (turns : List Turn) : Pid → Option Task :=
  (taskSystem 100).after (start nullReporter 100 ()).2.tasks.find (turns.map Turn.step)

theorem exists_reached {turns : List Turn}
    (hlive : ∀ turn ∈ turns, turn.pid = 100 → turn.stop.ends 100 = false) :
    ∃ outputs s, Machine.run (step nullReporter) (start nullReporter 100 ()).2
        (turns.map Turn.answers) = some (outputs, s) ∧ s.rootPid = 100 ∧
      s.tasks.find = tasksAfter turns ∧ s.returned = none ∧
      (s.tasks.find 100).isSome = true := by
  obtain ⟨outputs, s, hrun, hreturned, hroot⟩ :=
    @exists_run Unit (start nullReporter 100 ()).2 turns nullReporter rfl rfl hlive
  exact ⟨outputs, s, hrun, rootPid_run hrun, (run_turns hrun).1, hreturned, hroot⟩

/-- The tables of the process, from what the two tasks have. -/
theorem table_of_member {turns : List Turn} {table : FdTable}
    (hentries : ∀ pid ∈ [101, 102], ∀ entries ∈
      (tasksAfter turns pid).map (·.fdTable.entries.entries), entries = table.entries.entries)
    {pid : Pid} {task : Task} (hfind : tasksAfter turns pid = some task)
    (hmember : threadMember pid = true) : task.fdTable = table := by
  have hpid : pid ∈ [101, 102] := by
    rcases Bool.or_eq_true_iff.mp hmember with hpid | hpid
    · rw [of_decide_eq_true hpid]
      decide
    · rw [of_decide_eq_true hpid]
      decide
  have hsame := hentries pid hpid task.fdTable.entries.entries (by rw [hfind]; rfl)
  exact congrArg FdTable.mk (AList.ext hsame)

/-- The thread was announced before the file was opened, so its read is not reported at all;
with one table it is a read of `/f`. -/
theorem not_attributed_thread :
    ∃ outputs s, Machine.run (step nullReporter) (start nullReporter 100 ()).2
        (forkTurns.map Turn.answers) = some (outputs, s) ∧
      (∀ pid task, s.tasks.find pid = some task → threadMember pid = true →
        task.fdTable = {}) ∧
      (∀ turn ∈ threadTurns, ∀ child, turn.stop.announced turn.pid = some child →
        threadMember child = true → threadMember turn.pid = true) ∧
      ¬Attributed nullReporter s threadMember {} threadTurns := by
  obtain ⟨outputs, s, hrun, hrootPid, hfind, hreturned, hroot⟩ :=
    exists_reached (by decide : ∀ turn ∈ forkTurns, turn.pid = 100 → turn.stop.ends 100 = false)
  refine ⟨outputs, s, hrun, ?_, ?_, ?_⟩
  · intro pid task htask hmember
    rw [hfind] at htask
    exact table_of_member (by decide +kernel) htask hmember
  · have hmembers : ∀ turn ∈ threadTurns, threadMember turn.pid = true := by decide
    intro turn hturn _ _ _
    exact hmembers turn hturn
  · intro hattributed
    have hlive : ∀ turn ∈ threadTurns.take 6, turn.pid = s.rootPid →
        turn.stop.ends s.rootPid = false := by
      rw [hrootPid]
      decide
    rw [← hrootPid] at hroot
    obtain ⟨before, t, hbefore, hgoesOn, hstill⟩ := exists_run nullReporter hreturned hroot hlive
    rw [← rootPid_run hbefore] at hstill
    obtain ⟨actions, t', hstep⟩ := exists_step nullReporter (leaveTurn 102 0 3 0 10).answers
      hgoesOn (TaskRegistry.isEmpty_of_find hstill)
    have htasks := (run_turns hbefore).1
    rw [hfind, hrootPid] at htasks
    have hread : (leaveTurn 102 0 3 0 10).stop.isTransfer 102 (t.tasks.find 102) := by
      rw [htasks]
      exact ⟨_, _, rfl, by decide +kernel⟩
    have hsame := hattributed (threadTurns.take 6) (leaveTurn 102 0 3 0 10) [] before t actions t'
      rfl hbefore hstep rfl hread
    rw [(step_turn hstep).2, if_pos rfl, rootPid_run hbefore, Loop.viewAfter, hrootPid, hfind,
      htasks] at hsame
    exact absurd hsame (by decide +kernel)

/-- Here the file is open when the thread starts, and the thread is in its read. -/
def inheritTurns : List Turn :=
  forkTurns ++ [enterTurn 101 2 4096 0, leaveTurn 101 2 4096 0 3, enterTurn 101 56 0x50f00 0,
    eventTurn 101 ptraceEventClone 102, enterTurn 102 0 3 0]

/-- The thread leaves its read. -/
theorem attributed_inherit :
    ∃ outputs s, Machine.run (step nullReporter) (start nullReporter 100 ()).2
        (inheritTurns.map Turn.answers) = some (outputs, s) ∧
      Attributed nullReporter s threadMember (FdTable.track {} 3 "/f".toList)
        [leaveTurn 102 0 3 0 10] := by
  obtain ⟨outputs, s, hrun, hrootPid, hfind, hreturned, hroot⟩ :=
    exists_reached (by decide : ∀ turn ∈ inheritTurns, turn.pid = 100 → turn.stop.ends 100 = false)
  refine ⟨outputs, s, hrun, attributed_of_current ?_ ?_ ?_⟩
  · intro pid task htask hmember
    rw [hfind] at htask
    exact table_of_member (by decide +kernel) htask hmember
  · intro turn hturn _ _ _
    obtain rfl := List.mem_singleton.mp hturn
    rfl
  · intro front turn rest hturns
    obtain rfl : front = [] := by
      cases front with
      | nil => rfl
      | cons first front => simp at hturns
    intros
    trivial

end Example

end ExeCell.Trace
