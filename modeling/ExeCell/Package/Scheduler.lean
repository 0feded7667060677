import ExeCell.Lib.Machine
import ExeCell.Lib.Tickets
import ExeCell.Package.Observation

/-!
# The workers of `observe`

`observation::observe` starts a few threads that draw the indices of tasks from one
atomic counter and fill one slot each, and then destroys the threads one by one, which
asks each to stop and waits for it. A step of the machine is one action of one thread:
of the main thread, or of a worker at the check of its stop token, at the counter, at the
bounds check with the deadline, or at the end of its call of `run_one`.

A worker that is asked to stop gives up before it has looked at the counter again. When
the last worker does that with tasks left, these are lost: nobody runs them, and the
merged result does not mention them. `faithful_iff` says that this is the only way in
which the threads differ from running all tasks in order.
-/

namespace ExeCell.Package

/-! ## The machine -/

inductive WorkerPhase where
  /-- At the check of the stop token. -/
  | checking
  /-- At the counter. -/
  | claiming
  /-- At the bounds check of an index. -/
  | claimed (index : Nat)
  /-- In `run_one` for the task with this index. -/
  | running (index : Nat)
  | returned
  deriving DecidableEq, Repr

/-- The index that a worker has drawn and not yet dealt with. -/
def WorkerPhase.held : WorkerPhase → Option Nat
  | .claimed index => some index
  | .running index => some index
  | .checking | .claiming | .returned => none

structure Worker where
  phase : WorkerPhase := .checking
  stop : Bool := false
  deriving DecidableEq, Repr

/-- Where the main thread is. -/
inductive Main where
  /-- In the loop that starts the workers. -/
  | starting
  /-- In `workers.clear()`, between two workers; these have been destroyed. -/
  | clearing (joined : List Nat)
  /-- In the destructor of a worker, waiting for it. -/
  | joining (joined : List Nat) (worker : Nat)
  | merged (result : Observed)
  deriving DecidableEq, Repr

structure Schedule where
  next : Nat := 0
  slots : List Observed
  workers : List Worker := []
  main : Main := .starting
  /-- The indices for which a call of `run_one` has ended, in that order. -/
  ran : List Nat := []
  /-- The indices of the tasks that were skipped at the deadline, in that order. -/
  skipped : List Nat := []
  deriving DecidableEq, Repr

/-- What is being scheduled. -/
structure Job where
  tasks : List Task
  maxWorkers : Nat
  /-- The result that `observe` has before it starts the workers. -/
  header : Observed
  /-- What the call of `run_one` for the task at an index puts into its slot, and how it
  ends. -/
  runOne : Nat → Task → Observed × Ending

namespace Job

def workerCount (job : Job) : Nat := min (max job.maxWorkers 1) job.tasks.length

/-- What a worker puts into the slot of a task. -/
def runTask (job : Job) (index : Nat) (task : Task) : Observed :=
  afterEnding (job.runOne index task).1 (job.runOne index task).2

/-- The job of `observe` for a package: a call of `run_one` for each of its scripts, hooks
and executables. -/
def ofPackage (options : Options) (scripts hooks executables : List Text)
    (calls : Nat → (task : Task) → Call options task) : Job where
  tasks := tasksOf scripts hooks executables
  maxWorkers := options.maxWorkers
  header := observeHeader options (tasksOf scripts hooks executables)
  runOne index task := ((calls index task).left, (calls index task).ending)

/-- All tasks, one after another. -/
def sequential (job : Job) : Observed :=
  mergeAll job.header (job.tasks.mapIdx job.runTask)

def start (job : Job) : Schedule where
  slots := List.replicate job.tasks.length {}
  -- without tasks no worker is started
  main := if job.tasks = [] then .merged job.header else .starting

end Job

namespace Schedule

def setWorker (s : Schedule) (k : Nat) (worker : Worker) : Schedule :=
  { s with workers := s.workers.set k worker }

/-- Append to the slot of a task. -/
def write (s : Schedule) (index : Nat) (entries : Observed) : Schedule :=
  { s with slots := s.slots.modify index fun slot => slot.append entries }

end Schedule

inductive Turn where
  /-- The main thread; the number says which worker `clear` destroys next. -/
  | main (choice : Nat)
  /-- A worker; the flag says that it finds the deadline passed. -/
  | worker (k : Nat) (expired : Bool)
  deriving DecidableEq, Repr

def Turn.expired : Turn → Bool
  | .main _ => false
  | .worker _ expired => expired

def mainStep (job : Job) (s : Schedule) (choice : Nat) : Option Schedule :=
  match s.main with
  | .starting =>
    if s.workers.length < job.workerCount then some { s with workers := s.workers ++ [{}] }
    else some { s with main := .clearing [] }
  | .clearing joined =>
    if ∀ k < s.workers.length, k ∈ joined then
      some { s with main := .merged (mergeAll job.header s.slots) }
    else
      match s.workers[choice]? with
      | none => none
      | some worker =>
        if choice ∈ joined then none
        else some { s.setWorker choice { worker with stop := true } with
          main := .joining joined choice }
  | .joining joined k =>
    match s.workers[k]? with
    | none => none
    | some worker =>
      if worker.phase = .returned then some { s with main := .clearing (k :: joined) } else none
  | .merged _ => none

def workerStep (job : Job) (s : Schedule) (k : Nat) (expired : Bool) : Option Schedule :=
  match s.workers[k]? with
  | none => none
  | some worker =>
    match worker.phase with
    | .checking =>
      some (s.setWorker k
        { worker with phase := if worker.stop then .returned else .claiming })
    | .claiming =>
      some { s.setWorker k { worker with phase := .claimed s.next } with next := s.next + 1 }
    | .claimed index =>
      match job.tasks[index]? with
      | none => some (s.setWorker k { worker with phase := .returned })
      | some task =>
        if expired then
          some { (s.setWorker k { worker with phase := .returned }).write index
              (skippedEntries task) with
            skipped := s.skipped ++ [index] }
        else some (s.setWorker k { worker with phase := .running index })
    | .running index =>
      match job.tasks[index]? with
      | none => none
      | some task =>
        some { (s.setWorker k { worker with phase := .checking }).write index
            (job.runTask index task) with
          ran := s.ran ++ [index] }
    | .returned => none

/-- One action of one thread. -/
def scheduleStep (job : Job) (s : Schedule) (turn : Turn) : Option (Unit × Schedule) :=
  match turn with
  | .main choice => (mainStep job s choice).map fun s => ((), s)
  | .worker k expired => (workerStep job s k expired).map fun s => ((), s)

/-! ## What the threads should do -/

/-- Every worker that is in a slot is in one of the list, and no other worker holds the
same index. -/
def OwnSlots (job : Job) (s : Schedule) : Prop :=
  ∀ (k index : Nat) (worker : Worker), s.workers[k]? = some worker → worker.phase = .running index →
    index < job.tasks.length ∧
    ∀ (other : Nat) (worker' : Worker), s.workers[other]? = some worker' → worker'.phase.held = some index →
      other = k

/-- The run to `s` does what running all tasks in order does. -/
structure Faithful (job : Job) (turns : List Turn) (s : Schedule) : Prop where
  once : ∀ index < job.tasks.length, s.ran.count index = 1
  within : ∀ index ∈ s.ran, index < job.tasks.length
  ownSlots : Machine.Along (scheduleStep job) (fun t _ => OwnSlots job t) job.start turns
  result : s.main = .merged job.sequential

/-- The last worker that still runs returns because it has been asked to stop, with
tasks left that nobody has drawn. -/
def Abandons (job : Job) (s : Schedule) : Turn → Prop
  | .main _ => False
  | .worker k _ =>
    s.workers[k]? = some { phase := .checking, stop := true } ∧ s.next < job.tasks.length ∧
      ∀ worker ∈ s.workers.eraseIdx k, worker.phase = .returned

instance (job : Job) (s : Schedule) (turn : Turn) : Decidable (Abandons job s turn) :=
  match turn with
  | .main _ => inferInstanceAs (Decidable False)
  | .worker _ _ => inferInstanceAs (Decidable (_ ∧ _))

/-! ## One step -/

section Step

variable {job : Job} {s t : Schedule} {k choice : Nat} {expired : Bool}

theorem workerStep_cases (h : workerStep job s k expired = some t) :
    ∃ worker, s.workers[k]? = some worker ∧
      ((worker.phase = .checking ∧ worker.stop = true ∧
          t = s.setWorker k { worker with phase := .returned }) ∨
        (worker.phase = .checking ∧ worker.stop = false ∧
          t = s.setWorker k { worker with phase := .claiming }) ∨
        (worker.phase = .claiming ∧
          t = { s.setWorker k { worker with phase := .claimed s.next } with
            next := s.next + 1 }) ∨
        (∃ index, worker.phase = .claimed index ∧ job.tasks.length ≤ index ∧
          t = s.setWorker k { worker with phase := .returned }) ∨
        (∃ index, worker.phase = .claimed index ∧ index < job.tasks.length ∧ expired = false ∧
          t = s.setWorker k { worker with phase := .running index }) ∨
        (∃ index task, worker.phase = .claimed index ∧ job.tasks[index]? = some task ∧
          expired = true ∧
          t = { (s.setWorker k { worker with phase := .returned }).write index
              (skippedEntries task) with
            skipped := s.skipped ++ [index] }) ∨
        (∃ index task, worker.phase = .running index ∧ job.tasks[index]? = some task ∧
          t = { (s.setWorker k { worker with phase := .checking }).write index
              (job.runTask index task) with
            ran := s.ran ++ [index] })) := by
  rw [workerStep.eq_def] at h
  split at h
  · cases h
  · rename_i worker hworker
    refine ⟨worker, hworker, ?_⟩
    split at h
    · rename_i hphase
      obtain rfl := Option.some.inj h
      by_cases hstop : worker.stop = true
      · rw [if_pos hstop]
        exact Or.inl ⟨hphase, hstop, rfl⟩
      · rw [if_neg hstop]
        exact Or.inr (Or.inl ⟨hphase, by simpa using hstop, rfl⟩)
    · rename_i hphase
      exact Or.inr (Or.inr (Or.inl ⟨hphase, (Option.some.inj h).symm⟩))
    · rename_i index hphase
      split at h
      · rename_i htask
        exact Or.inr (Or.inr (Or.inr (Or.inl
          ⟨index, hphase, List.getElem?_eq_none_iff.mp htask, (Option.some.inj h).symm⟩)))
      · rename_i task htask
        split at h
        · rename_i hexpired
          exact Or.inr (Or.inr (Or.inr (Or.inr (Or.inr (Or.inl
            ⟨index, task, hphase, htask, hexpired, (Option.some.inj h).symm⟩)))))
        · rename_i hexpired
          have hindex := (List.getElem?_eq_some_iff.mp htask).1
          exact Or.inr (Or.inr (Or.inr (Or.inr (Or.inl
            ⟨index, hphase, hindex, by simpa using hexpired, (Option.some.inj h).symm⟩))))
    · rename_i index hphase
      split at h
      · cases h
      · rename_i task htask
        exact Or.inr (Or.inr (Or.inr (Or.inr (Or.inr (Or.inr
          ⟨index, task, hphase, htask, (Option.some.inj h).symm⟩)))))
    · cases h

theorem mainStep_cases (h : mainStep job s choice = some t) :
    (s.main = .starting ∧ s.workers.length < job.workerCount ∧
      t = { s with workers := s.workers ++ [{}] }) ∨
    (s.main = .starting ∧ job.workerCount ≤ s.workers.length ∧
      t = { s with main := .clearing [] }) ∨
    (∃ joined, s.main = .clearing joined ∧ (∀ k < s.workers.length, k ∈ joined) ∧
      t = { s with main := .merged (mergeAll job.header s.slots) }) ∨
    (∃ joined worker, s.main = .clearing joined ∧ s.workers[choice]? = some worker ∧
      t = { s.setWorker choice { worker with stop := true } with
        main := .joining joined choice }) ∨
    (∃ joined k worker, s.main = .joining joined k ∧ s.workers[k]? = some worker ∧
      worker.phase = .returned ∧ t = { s with main := .clearing (k :: joined) }) := by
  rw [mainStep.eq_def] at h
  split at h
  · rename_i hmain
    split at h
    · rename_i hlength
      exact Or.inl ⟨hmain, hlength, (Option.some.inj h).symm⟩
    · rename_i hlength
      exact Or.inr (Or.inl ⟨hmain, by omega, (Option.some.inj h).symm⟩)
  · rename_i joined hmain
    split at h
    · rename_i hall
      exact Or.inr (Or.inr (Or.inl ⟨joined, hmain, hall, (Option.some.inj h).symm⟩))
    · split at h
      · cases h
      · rename_i worker hworker
        split at h
        · cases h
        · exact Or.inr (Or.inr (Or.inr (Or.inl
            ⟨joined, worker, hmain, hworker, (Option.some.inj h).symm⟩)))
  · rename_i joined k hmain
    split at h
    · cases h
    · rename_i worker hworker
      split at h
      · rename_i hphase
        exact Or.inr (Or.inr (Or.inr (Or.inr
          ⟨joined, k, worker, hmain, hworker, hphase, (Option.some.inj h).symm⟩)))
      · cases h
  · cases h

end Step

/-! ## The invariant -/

def Schedule.pool (s : Schedule) : Tickets.Pool where
  next := s.next
  held := s.workers.map fun worker => worker.phase.held
  used := s.skipped ++ s.ran

/-- The workers that the main thread has joined have returned. -/
def Joined (s : Schedule) (joined : List Nat) : Prop :=
  ∀ (k : Nat) (worker : Worker), k ∈ joined → s.workers[k]? = some worker →
    worker.phase = .returned

def MainInv (job : Job) (s : Schedule) : Prop :=
  match s.main with
  | .starting => s.workers.length ≤ job.workerCount
  | .clearing joined => s.workers.length = job.workerCount ∧ Joined s joined
  | .joining joined _ => s.workers.length = job.workerCount ∧ Joined s joined
  | .merged result =>
    s.workers.length = job.workerCount ∧ (∀ worker ∈ s.workers, worker.phase = .returned) ∧
      result = mergeAll job.header s.slots

/-- The slots once the tasks with these indices have been run or skipped. -/
def Job.slotsAfter (job : Job) (ran skipped : List Nat) : List Observed :=
  job.tasks.mapIdx fun index task =>
    if index ∈ ran then job.runTask index task
    else if index ∈ skipped then skippedEntries task
    else {}

structure ScheduleInv (job : Job) (s : Schedule) : Prop where
  tickets : s.pool.Sound job.tasks.length
  running : ∀ (k index : Nat) (worker : Worker), s.workers[k]? = some worker →
    worker.phase = .running index → index < job.tasks.length
  slots : s.slots = job.slotsAfter s.ran s.skipped
  stopped : ∀ worker ∈ s.workers, worker.stop = true → s.workers.length = job.workerCount
  main : MainInv job s

theorem start_inv (job : Job) : ScheduleInv job job.start where
  tickets := Tickets.Pool.Sound.empty _
  running := by simp [Job.start]
  slots := by
    rw [Job.start, Job.slotsAfter]
    refine (List.mapIdx_eq_replicate_iff.mpr ?_).symm
    intro index hindex
    simp
  stopped := by simp [Job.start]
  main := by
    rw [MainInv, Job.start]
    by_cases htasks : job.tasks = []
    · simp [htasks, Job.workerCount, mergeAll]
    · simp [htasks]

section Invariant

variable {job : Job} {s t : Schedule} {k index : Nat} {worker worker' : Worker}

theorem pool_held (hworker : s.workers[k]? = some worker) :
    s.pool.held[k]? = some worker.phase.held := by
  simp [Schedule.pool, hworker]

theorem pool_setWorker : (s.setWorker k worker').pool = s.pool.give k worker'.phase.held := by
  simp [Schedule.pool, Schedule.setWorker, Tickets.Pool.give, List.map_set]

@[simp] theorem observed_append_empty (result : Observed) : Observed.append {} result = result :=
  rfl

theorem modify_mapIdx {α β : Type} {l : List α} {a : α} {f f' : Nat → α → β} {g : β → β}
    (ha : l[index]? = some a) (hthere : g (f index a) = f' index a)
    (helse : ∀ i ≠ index, ∀ b, f i b = f' i b) :
    (l.mapIdx f).modify index g = l.mapIdx f' := by
  apply List.ext_getElem?
  intro i
  rw [List.getElem?_modify, List.getElem?_mapIdx, List.getElem?_mapIdx]
  by_cases hi : index = i
  · subst hi
    simp [ha, hthere]
  · have hsame : f i = f' i := funext (helse i (Ne.symm hi))
    simp [hi, hsame]

/-- A slot that nobody has written gets the entries of its task. -/
theorem slotsAfter_run {task : Task} {ran skipped : List Nat}
    (htask : job.tasks[index]? = some task) (hfresh : index ∉ skipped ++ ran) :
    (job.slotsAfter ran skipped).modify index (fun slot => slot.append (job.runTask index task)) =
      job.slotsAfter (ran ++ [index]) skipped := by
  rw [List.mem_append, not_or] at hfresh
  apply modify_mapIdx htask
  · simp [hfresh.1, hfresh.2]
  · intro i hi task
    simp [hi]

theorem slotsAfter_skip {task : Task} {ran skipped : List Nat}
    (htask : job.tasks[index]? = some task) (hfresh : index ∉ skipped ++ ran) :
    (job.slotsAfter ran skipped).modify index (fun slot => slot.append (skippedEntries task)) =
      job.slotsAfter ran (skipped ++ [index]) := by
  rw [List.mem_append, not_or] at hfresh
  apply modify_mapIdx htask
  · simp [hfresh.1, hfresh.2]
  · intro i hi task
    simp [hi]

theorem stopped_setPhase (hI : ScheduleInv job s) (hworker : s.workers[k]? = some worker)
    (phase : WorkerPhase) :
    ∀ w ∈ s.workers.set k { worker with phase := phase }, w.stop = true →
      (s.workers.set k { worker with phase := phase }).length = job.workerCount := by
  intro w hw hset
  rw [List.length_set]
  rcases List.mem_or_eq_of_mem_set hw with hold | rfl
  · exact hI.stopped w hold hset
  · exact hI.stopped worker (List.mem_of_getElem? hworker) hset

theorem running_setWorker (hnot : ∀ i, worker'.phase = .running i → i < job.tasks.length)
    (hI : ScheduleInv job s) :
    ∀ (j i : Nat) (w : Worker), (s.workers.set k worker')[j]? = some w →
      w.phase = .running i → i < job.tasks.length := by
  intro j i w hw hphase
  rw [List.getElem?_set] at hw
  split at hw
  · split at hw
    · cases hw
      exact hnot i hphase
    · cases hw
  · exact hI.running j i w hw hphase

/-- A step of a worker that had not returned leaves the main thread where it is. -/
theorem mainInv_setWorker (hI : MainInv job s) (hworker : s.workers[k]? = some worker)
    (hphase : worker.phase ≠ .returned) (hmain : t.main = s.main)
    (hworkers : t.workers = s.workers.set k worker') : MainInv job t := by
  have hjoined : ∀ joined, Joined s joined → Joined t joined := by
    intro joined hj j w hmem hw
    rw [hworkers, List.getElem?_set] at hw
    split at hw
    · rename_i hk
      subst hk
      exact absurd (hj _ _ hmem hworker) hphase
    · exact hj j w hmem hw
  rw [MainInv] at hI ⊢
  rw [hmain, hworkers, List.length_set]
  split
  · rename_i heq
    rw [heq] at hI
    exact hI
  · rename_i joined heq
    rw [heq] at hI
    exact ⟨hI.1, hjoined _ hI.2⟩
  · rename_i joined j heq
    rw [heq] at hI
    exact ⟨hI.1, hjoined _ hI.2⟩
  · rename_i result heq
    rw [heq] at hI
    exact absurd (hI.2.1 worker (List.mem_of_getElem? hworker)) hphase

/-- What is left to show of a step that moves one worker on: the tickets and the slots. -/
theorem inv_setPhase {phase : WorkerPhase} (hI : ScheduleInv job s)
    (hworker : s.workers[k]? = some worker) (hphase : worker.phase ≠ .returned)
    (hrunning : ∀ i, phase = .running i → i < job.tasks.length)
    (hworkers : t.workers = s.workers.set k { worker with phase := phase })
    (hmain : t.main = s.main) (htickets : t.pool.Sound job.tasks.length)
    (hslots : t.slots = job.slotsAfter t.ran t.skipped) : ScheduleInv job t where
  tickets := htickets
  running := by
    rw [hworkers]
    exact running_setWorker hrunning hI
  slots := hslots
  stopped := by
    rw [hworkers]
    exact stopped_setPhase hI hworker phase
  main := mainInv_setWorker hI.main hworker hphase hmain hworkers

theorem workerStep_inv {expired : Bool} (hI : ScheduleInv job s)
    (h : workerStep job s k expired = some t) : ScheduleInv job t := by
  obtain ⟨worker, hworker, hcases⟩ := workerStep_cases h
  have hheld := pool_held hworker
  rcases hcases with ⟨hphase, _, rfl⟩ | ⟨hphase, _, rfl⟩ | ⟨hphase, rfl⟩ |
    ⟨index, hphase, hindex, rfl⟩ | ⟨index, hphase, hindex, _, rfl⟩ |
    ⟨index, task, hphase, htask, _, rfl⟩ | ⟨index, task, hphase, htask, rfl⟩
  · rw [hphase] at hheld
    refine inv_setPhase hI hworker (by simp [hphase]) (by simp) rfl rfl ?_ hI.slots
    rw [pool_setWorker]
    exact hI.tickets.keep hheld
  · rw [hphase] at hheld
    refine inv_setPhase hI hworker (by simp [hphase]) (by simp) rfl rfl ?_ hI.slots
    rw [pool_setWorker]
    exact hI.tickets.keep hheld
  · rw [hphase] at hheld
    refine inv_setPhase hI hworker (by simp [hphase]) (by simp) rfl rfl ?_ hI.slots
    have hpool : Schedule.pool { s.setWorker k { worker with phase := .claimed s.next } with
        next := s.next + 1 } =
        { s.pool.give k (some s.next) with next := s.next + 1 } := by
      simp [Schedule.pool, Schedule.setWorker, Tickets.Pool.give, List.map_set, WorkerPhase.held]
    rw [hpool]
    exact hI.tickets.draw hheld
  · rw [hphase] at hheld
    refine inv_setPhase hI hworker (by simp [hphase]) (by simp) rfl rfl ?_ hI.slots
    rw [pool_setWorker]
    exact hI.tickets.drop hheld hindex
  · rw [hphase] at hheld
    refine inv_setPhase hI hworker (by simp [hphase]) ?_ rfl rfl ?_ hI.slots
    · intro i hi
      cases hi
      exact hindex
    · rw [pool_setWorker]
      exact hI.tickets.keep hheld
  · rw [hphase] at hheld
    have hindex := (List.getElem?_eq_some_iff.mp htask).1
    refine inv_setPhase hI hworker (by simp [hphase]) (by simp) rfl rfl ?_ ?_
    · have hpool : Schedule.pool { (s.setWorker k { worker with phase := .returned }).write index
            (skippedEntries task) with
          skipped := s.skipped ++ [index] } =
          { s.pool.give k none with used := s.skipped ++ [index] ++ s.ran } := by
        simp [Schedule.pool, Schedule.setWorker, Schedule.write, Tickets.Pool.give, List.map_set,
          WorkerPhase.held]
      rw [hpool]
      refine (hI.tickets.use hheld hindex).perm ?_
      show (s.skipped ++ s.ran ++ [index]).Perm (s.skipped ++ [index] ++ s.ran)
      rw [List.append_assoc, List.append_assoc]
      exact List.perm_append_comm.append_left _
    · show s.slots.modify index _ = job.slotsAfter s.ran (s.skipped ++ [index])
      rw [hI.slots]
      exact slotsAfter_skip htask (hI.tickets.not_mem_used hindex hheld)
  · rw [hphase] at hheld
    have hindex := hI.running k index worker hworker hphase
    refine inv_setPhase hI hworker (by simp [hphase]) (by simp) rfl rfl ?_ ?_
    · have hpool : Schedule.pool { (s.setWorker k { worker with phase := .checking }).write index
            (job.runTask index task) with
          ran := s.ran ++ [index] } =
          { s.pool.give k none with used := s.skipped ++ s.ran ++ [index] } := by
        simp [Schedule.pool, Schedule.setWorker, Schedule.write, Tickets.Pool.give, List.map_set,
          WorkerPhase.held]
      rw [hpool]
      exact hI.tickets.use hheld hindex
    · show s.slots.modify index _ = job.slotsAfter (s.ran ++ [index]) s.skipped
      rw [hI.slots]
      exact slotsAfter_run htask (hI.tickets.not_mem_used hindex hheld)

theorem mainStep_inv {choice : Nat} (hI : ScheduleInv job s)
    (h : mainStep job s choice = some t) : ScheduleInv job t := by
  have hmainInv := hI.main
  rw [MainInv] at hmainInv
  rcases mainStep_cases h with ⟨hmain, hlength, rfl⟩ | ⟨hmain, hlength, rfl⟩ |
    ⟨joined, hmain, hall, rfl⟩ | ⟨joined, worker, hmain, hworker, rfl⟩ |
    ⟨joined, j, worker, hmain, hworker, hphase, rfl⟩
  · refine ⟨?_, ?_, hI.slots, ?_, ?_⟩
    · have hpool : Schedule.pool { s with workers := s.workers ++ [{}] } =
          { s.pool with held := s.pool.held ++ [none] } := by
        simp [Schedule.pool, WorkerPhase.held]
      rw [hpool]
      exact hI.tickets.join
    · intro j i w hw hphase
      rcases List.mem_append.mp (List.mem_of_getElem? hw) with hold | hnew
      · obtain ⟨j', hj'⟩ := List.mem_iff_getElem?.mp hold
        exact hI.running j' i w hj' hphase
      · rw [List.mem_singleton.mp hnew] at hphase
        cases hphase
    · intro w hw hstop
      rcases List.mem_append.mp hw with hold | hnew
      · have := hI.stopped w hold hstop
        omega
      · rw [List.mem_singleton.mp hnew] at hstop
        cases hstop
    · rw [MainInv, hmain, List.length_append, List.length_singleton]
      exact hlength
  · rw [hmain] at hmainInv
    refine ⟨hI.tickets, hI.running, hI.slots, hI.stopped, ?_⟩
    refine ⟨Nat.le_antisymm hmainInv hlength, ?_⟩
    intro j w hj
    simp at hj
  · rw [hmain] at hmainInv
    refine ⟨hI.tickets, hI.running, hI.slots, hI.stopped, hmainInv.1, ?_, rfl⟩
    intro w hw
    obtain ⟨j, hj⟩ := List.mem_iff_getElem?.mp hw
    exact hmainInv.2 j w (hall j (List.getElem?_eq_some_iff.mp hj).1) hj
  · rw [hmain] at hmainInv
    refine ⟨?_, running_setWorker ?_ hI, hI.slots, ?_, ?_⟩
    · show (s.setWorker choice { worker with stop := true }).pool.Sound job.tasks.length
      have hheld := pool_held hworker
      rw [pool_setWorker]
      exact hI.tickets.keep hheld
    · exact fun i hi => hI.running choice i worker hworker hi
    · intro w _ _
      rw [Schedule.setWorker, List.length_set]
      exact hmainInv.1
    · refine ⟨?_, ?_⟩
      · rw [Schedule.setWorker, List.length_set]
        exact hmainInv.1
      · intro j w hj hw
        rw [Schedule.setWorker, List.getElem?_set] at hw
        split at hw
        · rename_i hchoice
          subst hchoice
          split at hw
          · cases hw
            exact hmainInv.2 _ worker hj hworker
          · cases hw
        · exact hmainInv.2 j w hj hw
  · rw [hmain] at hmainInv
    refine ⟨hI.tickets, hI.running, hI.slots, hI.stopped, hmainInv.1, ?_⟩
    intro i w hi hw
    rcases List.mem_cons.mp hi with rfl | hi
    · rw [hworker] at hw
      cases hw
      exact hphase
    · exact hmainInv.2 i w hi hw

theorem scheduleStep_inv {turn : Turn} {u : Unit} (hI : ScheduleInv job s)
    (h : scheduleStep job s turn = some (u, t)) : ScheduleInv job t := by
  cases turn with
  | main choice =>
    obtain ⟨v, hv, heq⟩ := Option.map_eq_some_iff.mp h
    cases heq
    exact mainStep_inv hI hv
  | worker k expired =>
    obtain ⟨v, hv, heq⟩ := Option.map_eq_some_iff.mp h
    cases heq
    exact workerStep_inv hI hv

theorem ownSlots_of_inv (hI : ScheduleInv job s) : OwnSlots job s := by
  intro k index worker hworker hphase
  have hindex := hI.running k index worker hworker hphase
  refine ⟨hindex, ?_⟩
  intro other worker' hother hheld
  have hk := pool_held hworker
  rw [hphase] at hk
  have ho := pool_held hother
  rw [hheld] at ho
  exact hI.tickets.eq_of_held hindex ho hk

end Invariant

/-! ## Lost tasks -/

/-- The worker returns in this step: it has been asked to stop, or finds the deadline
passed. -/
def returns (s : Schedule) : Turn → Bool
  | .main _ => false
  | .worker k expired =>
    match s.workers[k]? with
    | none => false
    | some worker =>
      match worker.phase with
      | .checking => worker.stop
      | .claimed _ => expired
      | .claiming | .running _ | .returned => false

/-- The last worker returns, with tasks left that nobody has drawn. -/
def GivesUp (job : Job) (s : Schedule) : Turn → Prop
  | .main _ => False
  | .worker k expired =>
    s.next < job.tasks.length ∧ s.workers.length = job.workerCount ∧
      (∀ worker ∈ s.workers.eraseIdx k, worker.phase = .returned) ∧
      returns s (.worker k expired) = true

instance (job : Job) (s : Schedule) (turn : Turn) : Decidable (GivesUp job s turn) :=
  match turn with
  | .main _ => inferInstanceAs (Decidable False)
  | .worker _ _ => inferInstanceAs (Decidable (_ ∧ _))

/-- All workers have returned with tasks left that nobody has drawn. -/
def Lost (job : Job) (s : Schedule) : Prop :=
  s.next < job.tasks.length ∧ s.workers.length = job.workerCount ∧
    ∀ worker ∈ s.workers, worker.phase = .returned

section Lost

variable {job : Job} {s t : Schedule} {turn : Turn} {u : Unit}

theorem not_lost_start (job : Job) : ¬ Lost job job.start := by
  rintro ⟨hnext, hlength, _⟩
  have htasks : 0 < job.tasks.length := hnext
  have hcount : 0 = job.workerCount := hlength
  rw [Job.workerCount] at hcount
  omega

/-- The main thread starts a worker, or leaves the counter and every phase alone. -/
theorem mainStep_frame {choice : Nat} (h : mainStep job s choice = some t) :
    t.next = s.next ∧
    ((s.workers.length < job.workerCount ∧ t.workers = s.workers ++ [({} : Worker)]) ∨
      t.workers.map Worker.phase = s.workers.map Worker.phase) := by
  rcases mainStep_cases h with ⟨_, hlength, rfl⟩ | ⟨_, _, rfl⟩ | ⟨_, _, _, rfl⟩ |
    ⟨joined, worker, _, hworker, rfl⟩ | ⟨_, _, _, _, _, _, rfl⟩
  · exact ⟨rfl, Or.inl ⟨hlength, rfl⟩⟩
  · exact ⟨rfl, Or.inr rfl⟩
  · exact ⟨rfl, Or.inr rfl⟩
  · refine ⟨rfl, Or.inr ?_⟩
    obtain ⟨hk, hget⟩ := List.getElem?_eq_some_iff.mp hworker
    show (s.workers.set choice { worker with stop := true }).map Worker.phase = _
    rw [List.map_set, ← hget, ← List.getElem_map Worker.phase]
    exact List.set_getElem_self (by simpa using hk)
  · exact ⟨rfl, Or.inr rfl⟩

theorem forall_phase_iff {workers workers' : List Worker}
    (h : workers'.map Worker.phase = workers.map Worker.phase) :
    (∀ worker ∈ workers', worker.phase = .returned) ↔
      ∀ worker ∈ workers, worker.phase = .returned := by
  have hmap : ∀ l : List Worker, (∀ worker ∈ l, worker.phase = .returned) ↔
      ∀ phase ∈ l.map Worker.phase, phase = .returned := by
    intro l
    rw [List.forall_mem_map]
  rw [hmap, h, ← hmap]

/-- What is lost stays lost. -/
theorem lost_step (hlost : Lost job s) (h : scheduleStep job s turn = some (u, t)) :
    Lost job t := by
  obtain ⟨hnext, hlength, hreturned⟩ := hlost
  cases turn with
  | main choice =>
    obtain ⟨v, hv, heq⟩ := Option.map_eq_some_iff.mp h
    cases heq
    obtain ⟨hsame, ⟨hless, _⟩ | hphases⟩ := mainStep_frame hv
    · omega
    · refine ⟨hsame ▸ hnext, ?_, (forall_phase_iff hphases).mpr hreturned⟩
      rw [← hlength, ← List.length_map Worker.phase, hphases, List.length_map]
  | worker k expired =>
    obtain ⟨v, hv, heq⟩ := Option.map_eq_some_iff.mp h
    rw [workerStep.eq_def] at hv
    split at hv
    · cases hv
    · rename_i worker hworker
      rw [hreturned worker (List.mem_of_getElem? hworker)] at hv
      cases hv

/-- A step loses tasks only when the last worker gives up. -/
theorem not_lost_step (hI : ScheduleInv job s) (hlost : ¬ Lost job s)
    (hgives : ¬ GivesUp job s turn) (h : scheduleStep job s turn = some (u, t)) :
    ¬ Lost job t := by
  rintro ⟨hnext, hlength, hreturned⟩
  cases turn with
  | main choice =>
    obtain ⟨v, hv, heq⟩ := Option.map_eq_some_iff.mp h
    cases heq
    obtain ⟨hsame, ⟨_, hworkers⟩ | hphases⟩ := mainStep_frame hv
    · have hnew := hreturned {} (by simp [hworkers])
      cases hnew
    · refine hlost ⟨hsame ▸ hnext, ?_, (forall_phase_iff hphases).mp hreturned⟩
      rw [← hlength, ← List.length_map Worker.phase, ← hphases, List.length_map]
  | worker k expired =>
    obtain ⟨v, hv, heq⟩ := Option.map_eq_some_iff.mp h
    cases heq
    obtain ⟨worker, hworker, hcases⟩ := workerStep_cases hv
    have hk := (List.getElem?_eq_some_iff.mp hworker).1
    -- what the others have to be for the worker that returns to be the last
    have hlast : ∀ worker' : Worker, t.workers = s.workers.set k worker' → t.next = s.next →
        returns s (.worker k expired) = true → False := by
      intro worker' hset hsame hreturns
      rw [hset, List.length_set] at hlength
      refine hgives ⟨hsame ▸ hnext, hlength, ?_, hreturns⟩
      intro other hmem
      obtain ⟨j, hne, hother⟩ := List.mem_eraseIdx_iff_getElem?.mp hmem
      refine hreturned other (List.mem_of_getElem? (i := j) ?_)
      rw [hset, List.getElem?_set_ne (Ne.symm hne)]
      exact hother
    rcases hcases with ⟨hphase, hstop, rfl⟩ | ⟨_, _, rfl⟩ | ⟨_, rfl⟩ |
      ⟨index, hphase, hindex, rfl⟩ | ⟨_, _, _, _, rfl⟩ | ⟨index, task, hphase, _, hexpired, rfl⟩ | ⟨_, _, _, _, rfl⟩
    · exact hlast _ rfl rfl (by simp [returns, hworker, hphase, hstop])
    · cases hreturned _ (List.mem_set hk _)
    · cases hreturned _ (List.mem_set hk _)
    · -- an index beyond the list has been drawn, so the counter is beyond it too
      have hheld := pool_held hworker
      rw [hphase] at hheld
      have hdrawn : index < s.next := hI.tickets.drawn index (List.mem_of_getElem? hheld)
      have : s.next < job.tasks.length := hnext
      omega
    · cases hreturned _ (List.mem_set hk _)
    · exact hlast _ rfl rfl (by simp [returns, hworker, hphase, hexpired])
    · cases hreturned _ (List.mem_set hk _)

/-- A worker that returns leaves the counter and the other workers alone. -/
theorem workerStep_returns {k : Nat} {expired : Bool}
    (hreturns : returns s (.worker k expired) = true)
    (h : workerStep job s k expired = some t) :
    t.next = s.next ∧ ∃ stop, t.workers = s.workers.set k { phase := .returned, stop := stop } := by
  obtain ⟨worker, hworker, hcases⟩ := workerStep_cases h
  simp only [returns, hworker] at hreturns
  rcases hcases with ⟨_, _, rfl⟩ | ⟨hphase, hstop, rfl⟩ | ⟨hphase, rfl⟩ | ⟨_, _, _, rfl⟩ |
    ⟨_, hphase, _, hexpired, rfl⟩ | ⟨_, _, _, _, _, rfl⟩ | ⟨_, _, hphase, _, rfl⟩
  · exact ⟨rfl, worker.stop, rfl⟩
  · simp [hphase, hstop] at hreturns
  · simp [hphase] at hreturns
  · exact ⟨rfl, worker.stop, rfl⟩
  · simp [hphase, hexpired] at hreturns
  · exact ⟨rfl, worker.stop, rfl⟩
  · simp [hphase] at hreturns

theorem lost_of_givesUp (hgives : GivesUp job s turn)
    (h : scheduleStep job s turn = some (u, t)) : Lost job t := by
  cases turn with
  | main choice => exact hgives.elim
  | worker k expired =>
    obtain ⟨hnext, hlength, hothers, hreturns⟩ := hgives
    obtain ⟨v, hv, heq⟩ := Option.map_eq_some_iff.mp h
    cases heq
    obtain ⟨hsame, stop, hworkers⟩ := workerStep_returns hreturns hv
    refine ⟨hsame ▸ hnext, by rw [hworkers, List.length_set, hlength], ?_⟩
    intro w hw
    obtain ⟨j, hj⟩ := List.mem_iff_getElem?.mp hw
    rw [hworkers, List.getElem?_set] at hj
    split at hj
    · split at hj
      · cases hj
        rfl
      · cases hj
    · rename_i hne
      exact hothers w (List.mem_eraseIdx_iff_getElem?.mpr ⟨j, Ne.symm hne, hj⟩)

/-- A run that loses nothing has no step in which the last worker gives up. -/
theorem along_of_not_lost {turns : List Turn} {outputs : List Unit} (hI : ScheduleInv job s)
    (hrun : Machine.run (scheduleStep job) s turns = some (outputs, t)) (hlost : ¬ Lost job t) :
    Machine.Along (scheduleStep job) (fun s turn => ¬ GivesUp job s turn) s turns := by
  induction turns generalizing s outputs with
  | nil => trivial
  | cons turn turns ih =>
    obtain ⟨o, v, os, hstep, hrest, rfl⟩ := Machine.run_cons.mp hrun
    constructor
    · intro hgives
      have hv := lost_of_givesUp hgives hstep
      exact hlost (Machine.run_invariant (Lost job) (fun _ _ _ _ hl hs => lost_step hl hs) hv
        hrest)
    · intro o' v' hstep'
      rw [hstep] at hstep'
      cases hstep'
      exact ih (scheduleStep_inv hI hstep) hrest

/-- Before the deadline, giving up is obeying the stop request. -/
theorem givesUp_iff_abandons (hI : ScheduleInv job s) (hexpired : turn.expired = false) :
    GivesUp job s turn ↔ Abandons job s turn := by
  cases turn with
  | main choice => exact Iff.rfl
  | worker k expired =>
    obtain rfl : expired = false := hexpired
    constructor
    · rintro ⟨hnext, _, hothers, hreturns⟩
      refine ⟨?_, hnext, hothers⟩
      rw [returns] at hreturns
      split at hreturns
      · cases hreturns
      · rename_i worker hworker
        obtain ⟨phase, stop⟩ := worker
        cases phase with
        | checking =>
          obtain rfl : stop = true := hreturns
          exact hworker
        | claiming => cases hreturns
        | claimed index => cases hreturns
        | running index => cases hreturns
        | returned => cases hreturns
    · rintro ⟨hworker, hnext, hothers⟩
      have hlength := hI.stopped _ (List.mem_of_getElem? hworker) rfl
      exact ⟨hnext, hlength, hothers, by simp [returns, hworker]⟩

end Lost

/-! ## Whole runs -/

section Runs

variable {job : Job} {s : Schedule} {turns : List Turn} {outputs : List Unit} {result : Observed}

theorem mergeAll_slotsAfter {ran skipped : List Nat}
    (h : ∀ index < job.tasks.length, index ∈ ran) :
    mergeAll job.header (job.slotsAfter ran skipped) = job.sequential := by
  have hslots : job.slotsAfter ran skipped = job.tasks.mapIdx job.runTask := by
    apply List.ext_getElem?
    intro i
    rw [Job.slotsAfter, List.getElem?_mapIdx, List.getElem?_mapIdx]
    cases htask : job.tasks[i]? with
    | none => rfl
    | some task =>
      have hi := h i (List.getElem?_eq_some_iff.mp htask).1
      simp [hi]
  rw [hslots, Job.sequential]

/-- The indices that a step adds to those that were run. -/
def finished (s : Schedule) : Turn → List Nat
  | .main _ => []
  | .worker k _ =>
    match s.workers[k]? with
    | some { phase := .running index, stop := _ } => [index]
    | _ => []

/-- The indices that a step adds to those that were skipped. -/
def dropped (job : Job) (s : Schedule) : Turn → List Nat
  | .main _ => []
  | .worker k expired =>
    match s.workers[k]? with
    | some { phase := .claimed index, stop := _ } =>
      if expired ∧ index < job.tasks.length then [index] else []
    | _ => []

theorem scheduleStep_logs {turn : Turn} {u : Unit} {t : Schedule}
    (h : scheduleStep job s turn = some (u, t)) :
    t.ran = s.ran ++ finished s turn ∧ t.skipped = s.skipped ++ dropped job s turn := by
  cases turn with
  | main choice =>
    obtain ⟨v, hv, heq⟩ := Option.map_eq_some_iff.mp h
    cases heq
    rcases mainStep_cases hv with ⟨_, _, rfl⟩ | ⟨_, _, rfl⟩ | ⟨_, _, _, rfl⟩ | ⟨_, _, _, _, rfl⟩ |
      ⟨_, _, _, _, _, _, rfl⟩ <;>
    simp [finished, dropped, Schedule.setWorker]
  | worker k expired =>
    obtain ⟨v, hv, heq⟩ := Option.map_eq_some_iff.mp h
    cases heq
    obtain ⟨⟨phase, stop⟩, hworker, hcases⟩ := workerStep_cases hv
    dsimp only at hcases
    rcases hcases with ⟨rfl, _, rfl⟩ | ⟨rfl, _, rfl⟩ | ⟨rfl, rfl⟩ | ⟨index, rfl, hindex, rfl⟩ |
      ⟨index, rfl, _, hexpired, rfl⟩ | ⟨index, task, rfl, htask, hexpired, rfl⟩ |
      ⟨index, task, rfl, _, rfl⟩
    · simp [finished, dropped, hworker, Schedule.setWorker]
    · simp [finished, dropped, hworker, Schedule.setWorker]
    · simp [finished, dropped, hworker, Schedule.setWorker]
    · simp [finished, dropped, hworker, Schedule.setWorker, Nat.not_lt.mpr hindex]
    · simp [finished, dropped, hworker, Schedule.setWorker, hexpired]
    · have hindex := (List.getElem?_eq_some_iff.mp htask).1
      simp [finished, dropped, hworker, Schedule.setWorker, Schedule.write, hexpired, hindex]
    · simp [finished, dropped, hworker, Schedule.setWorker, Schedule.write]

theorem along_finished_iff (Q : Nat → Prop)
    (hrun : Machine.run (scheduleStep job) job.start turns = some (outputs, s)) :
    Machine.Along (scheduleStep job) (fun t turn => ∀ index ∈ finished t turn, Q index) job.start
      turns ↔ ∀ index ∈ s.ran, Q index :=
  Machine.along_log (fun t : Schedule => t.ran) finished
    (fun _ _ _ _ hstep => (scheduleStep_logs hstep).1) Q hrun

theorem along_dropped_iff
    (hrun : Machine.run (scheduleStep job) job.start turns = some (outputs, s)) :
    Machine.Along (scheduleStep job) (fun t turn => dropped job t turn = []) job.start turns ↔
      s.skipped = [] := by
  have hlog := Machine.along_log (fun t : Schedule => t.skipped) (dropped job)
    (fun _ _ _ _ hstep => (scheduleStep_logs hstep).2) (fun _ => False) hrun
  simp only [← List.eq_nil_iff_forall_not_mem] at hlog
  exact hlog

theorem dropped_eq_nil {t : Schedule} {turn : Turn} (hexpired : turn.expired = false) :
    dropped job t turn = [] := by
  cases turn with
  | main choice => rfl
  | worker k expired =>
    obtain rfl : expired = false := hexpired
    rw [dropped]
    split
    · simp
    · rfl

/-- Before the deadline nothing is skipped. -/
theorem skipped_eq_nil (hdeadline : ∀ turn ∈ turns, turn.expired = false)
    (hrun : Machine.run (scheduleStep job) job.start turns = some (outputs, s)) :
    s.skipped = [] :=
  (along_dropped_iff hrun).mp
    (Machine.along_of_forall_mem fun turn hmem _ => dropped_eq_nil (hdeadline turn hmem))

theorem held_eq_none_of_returned (h : ∀ worker ∈ s.workers, worker.phase = .returned) :
    ∀ ticket ∈ s.pool.held, ticket = none := by
  intro ticket hticket
  obtain ⟨worker, hworker, rfl⟩ := List.mem_map.mp hticket
  rw [h worker hworker]
  rfl

theorem run_inv (hrun : Machine.run (scheduleStep job) job.start turns = some (outputs, s)) :
    ScheduleInv job s :=
  Machine.run_invariant (ScheduleInv job) (fun _ _ _ _ hI hstep => scheduleStep_inv hI hstep)
    (start_inv job) hrun

theorem along_inv (job : Job) (turns : List Turn) :
    Machine.Along (scheduleStep job) (fun t _ => ScheduleInv job t) job.start turns :=
  Machine.along_of_invariant (ScheduleInv job) (fun _ _ => True)
    (fun _ _ _ _ hI _ hstep => scheduleStep_inv hI hstep) (start_inv job)
    (Machine.along_of_forall_mem fun _ _ _ => trivial)

/-- A run loses tasks if and only if the last worker gives up in one of its steps. -/
theorem not_lost_iff (hrun : Machine.run (scheduleStep job) job.start turns = some (outputs, s)) :
    ¬ Lost job s ↔
      Machine.Along (scheduleStep job) (fun t turn => ¬ GivesUp job t turn) job.start turns := by
  constructor
  · intro hlost
    exact along_of_not_lost (start_inv job) hrun hlost
  · intro hkept
    exact (Machine.run_invariant_along (fun t => ScheduleInv job t ∧ ¬ Lost job t) _
      (fun _ _ _ _ h hC hstep => ⟨scheduleStep_inv h.1 hstep, not_lost_step h.1 h.2 hC hstep⟩)
      ⟨start_inv job, not_lost_start job⟩ hkept hrun).2

/-- At the end of a run, every task that was drawn has been run or skipped, once. -/
theorem count_dealt (hI : ScheduleInv job s) (hend : s.main = .merged result) {index : Nat}
    (hindex : index < job.tasks.length) :
    s.skipped.count index + s.ran.count index = if index < s.next then 1 else 0 := by
  have hmain := hI.main
  rw [MainInv, hend] at hmain
  have hcount := hI.tickets.count_used (held_eq_none_of_returned hmain.2.1) hindex
  rw [← List.count_append]
  exact hcount

/-- If nothing was lost, every task was drawn. -/
theorem lost_iff_next (hI : ScheduleInv job s) (hend : s.main = .merged result) :
    Lost job s ↔ s.next < job.tasks.length := by
  have hmain := hI.main
  rw [MainInv, hend] at hmain
  exact ⟨fun hlost => hlost.1, fun hnext => ⟨hnext, hmain.1, hmain.2.1⟩⟩

/-- Take any number of tasks and of workers, any calls of `run_one` whose outcome depends
only on the task and its place in the list, and any interleaving of the threads that ends
before the deadline. The run does what running all tasks in order does if and only if no
step of it is the one in which the last worker obeys its stop request with tasks left. -/
theorem faithful_iff (hdeadline : ∀ turn ∈ turns, turn.expired = false)
    (hrun : Machine.run (scheduleStep job) job.start turns = some (outputs, s))
    (hend : s.main = .merged result) :
    Faithful job turns s ↔
      Machine.Along (scheduleStep job) (fun t turn => ¬ Abandons job t turn) job.start turns := by
  have hI := run_inv hrun
  have hskipped := skipped_eq_nil hdeadline hrun
  have hcount : ∀ index < job.tasks.length,
      s.ran.count index = if index < s.next then 1 else 0 := by
    intro index hindex
    have hdealt := count_dealt hI hend hindex
    rwa [hskipped, List.count_nil, Nat.zero_add] at hdealt
  have hsame : Machine.Along (scheduleStep job) (fun t turn => ¬ GivesUp job t turn) job.start turns ↔
      Machine.Along (scheduleStep job) (fun t turn => ¬ Abandons job t turn) job.start turns := by
    have hquiet : Machine.Along (scheduleStep job)
        (fun t turn => ScheduleInv job t ∧ turn.expired = false) job.start turns :=
      (along_inv job turns).and
        (Machine.along_of_forall_mem fun turn hmem _ => hdeadline turn hmem)
    constructor
    · intro h
      exact (hquiet.and h).imp fun t turn ⟨hq, hn⟩ => (givesUp_iff_abandons hq.1 hq.2).not.mp hn
    · intro h
      exact (hquiet.and h).imp fun t turn ⟨hq, hn⟩ => (givesUp_iff_abandons hq.1 hq.2).not.mpr hn
  rw [← hsame, ← not_lost_iff hrun, lost_iff_next hI hend]
  constructor
  · intro hfaithful hnext
    have honce := hfaithful.once s.next hnext
    rw [hcount s.next hnext, if_neg (lt_irrefl _)] at honce
    cases honce
  · intro hnext
    have honce : ∀ index < job.tasks.length, s.ran.count index = 1 := by
      intro index hindex
      rw [hcount index hindex, if_pos (by omega)]
    refine ⟨honce, ?_, (along_inv job turns).imp fun t _ hI => ownSlots_of_inv hI, ?_⟩
    · intro index hindex
      exact hI.tickets.within index (List.mem_append_right _ hindex)
    · have hmain := hI.main
      rw [MainInv, hend] at hmain
      rw [hend, hmain.2.2, hI.slots, mergeAll_slotsAfter]
      intro index hindex
      exact List.one_le_count_iff.mp (by rw [honce index hindex])

end Runs

/-- Two executables, whose calls of `run_one` leave one event each, and two workers. -/
def pairJob : Job where
  tasks := tasksOf [] [] ["usr/bin/a".toList, "usr/bin/b".toList]
  maxWorkers := 2
  header := {}
  runOne := fun _ task => ({ events := [task.path] }, .returned)

/-- Both workers run a task and find the list exhausted before they are destroyed. -/
def patientTurns : List Turn :=
  let worker (count worker : Nat) : List Turn := List.replicate count (.worker worker false)
  let main (choices : List Nat) : List Turn := choices.map .main
  main [0, 0] ++ worker 4 0 ++ worker 7 1 ++ worker 3 0 ++ main [0, 0, 0, 1, 0, 0]

theorem faithful_patientTurns :
    ∃ outputs s, Machine.run (scheduleStep pairJob) pairJob.start patientTurns = some (outputs, s) ∧
      Faithful pairJob patientTurns s := by
  obtain ⟨⟨outputs, s⟩, hrun, hend⟩ := (Option.any_eq_true (fun r => r.2.main = .merged pairJob.sequential) _).mp
    (show (Machine.run (scheduleStep pairJob) pairJob.start patientTurns).any _ by decide)
  refine ⟨outputs, s, hrun, ?_⟩
  apply (faithful_iff (by decide) hrun (of_decide_eq_true hend)).mpr
  decide

/-- Both workers are destroyed before they have started to work. -/
def hastyTurns : List Turn :=
  [.main 0, .main 0, .main 0, .main 0, .worker 0 false, .main 0, .main 1, .worker 1 false,
    .main 0, .main 0]

/-- Nobody runs the two tasks, and the result does not mention them. -/
theorem hastyTurns_not_faithful :
    ∃ outputs s, Machine.run (scheduleStep pairJob) pairJob.start hastyTurns = some (outputs, s) ∧
      (∀ turn ∈ hastyTurns, turn.expired = false) ∧ s.main = .merged pairJob.header ∧
      ¬ Faithful pairJob hastyTurns s := by
  refine ⟨_, _, rfl, by decide, rfl, ?_⟩
  intro hfaithful
  exact absurd (hfaithful.once 0 (by decide)) (by decide)

end ExeCell.Package
