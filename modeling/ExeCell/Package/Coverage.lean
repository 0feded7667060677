import ExeCell.Package.Inspect
import ExeCell.Package.Scheduler
import ExeCell.Package.TraceEvidence
import Mathlib.Data.List.Forall2

/-!
# The coverage of a package

Every exit of `run_one`, and the deadline branch of the workers, writes its entry into the
coverage by hand. The path filter of `run_one`, a cgroup that cannot be created and an
exception write none, and a worker that finds the deadline passed returns, so that tasks may
be left for which there is no worker.

* `runOne_coverage_of_silent`, `exists_runOne_coverage`: what one call writes.
* `entries_iff`: the slots at the end of a run, by its steps.
* `accounts_iff`: every task has its entry exactly when no call ends without one and the
  last worker does not return with tasks left.
-/

namespace ExeCell.Package

open ArchiveAdapter

/-! ## The entry of one call -/

/-- `run_one` ends at its path filter, or because it cannot create the cgroup. -/
def Silent (options : Options) (host : TaskHost) (task : Task) : Prop :=
  LexicalPath.isAbsolute task.path = true ∨ Search.occurs "..".toList task.path = true ∨
    (host.staged = true ∧ host.session.isSome = true ∧ host.snapshotHasFile = true ∧
      options.cgroupRoot ≠ [] ∧ host.cgroupCreated = false)

instance (options : Options) (host : TaskHost) (task : Task) :
    Decidable (Silent options host task) :=
  inferInstanceAs (Decidable (_ ∨ _))

section OneTask

variable {options : Options} {host : TaskHost} {task : Task}

theorem runOne_coverage_of_silent (h : Silent options host task) :
    (runOne options host task).coverage = [] := by
  delta runOne
  rcases h with hpath | hpath | ⟨hstaged, hsession, hfile, hroot, hcgroup⟩
  · rw [if_pos (Or.inl hpath)]
  · rw [if_pos (Or.inr hpath)]
  · split
    · rfl
    · obtain ⟨root, hsome⟩ := Option.isSome_iff_exists.mp hsession
      rw [if_neg (by simp [hstaged]), hsome]
      dsimp only
      rw [if_neg (by simp [hfile]), if_pos ⟨hroot, by simp [hcgroup]⟩]

theorem runs_of_not_silent {root : Text} (h : ¬ Silent options host task)
    (hstaged : host.staged = true) (hsession : host.session = some root)
    (hfile : host.snapshotHasFile = true) : Runs options host task root := by
  simp only [Silent, not_or] at h
  obtain ⟨hrelative, hinside, hcgroup⟩ := h
  refine ⟨by simpa using hrelative, by simpa using hinside, hstaged, hsession, hfile, ?_⟩
  intro hroot
  by_contra hcreated
  exact hcgroup ⟨hstaged, by rw [hsession]; rfl, hfile, hroot, by simpa using hcreated⟩

theorem not_silent_of_runs {root : Text} (h : Runs options host task root) :
    ¬ Silent options host task := by
  obtain ⟨hrelative, hinside, _, _, _, hcgroup⟩ := h
  rintro (hpath | hpath | ⟨_, _, _, hroot, hfailed⟩)
  · rw [hrelative] at hpath
    cases hpath
  · rw [hinside] at hpath
    cases hpath
  · rw [hcgroup hroot] at hfailed
    cases hfailed

theorem exists_runOne_coverage (h : ¬ Silent options host task) :
    ∃ verdict, (runOne options host task).coverage = [task.path ++ ':' :: verdict] := by
  have hpath : ¬ (LexicalPath.isAbsolute task.path = true ∨
      Search.occurs "..".toList task.path = true) :=
    fun hpath => h (hpath.imp id Or.inl)
  cases hstaged : host.staged with
  | false =>
    delta runOne
    rw [if_neg hpath, if_pos (by simp [hstaged])]
    exact ⟨"skipped:not-staged".toList, rfl⟩
  | true =>
    cases hsession : host.session with
    | none =>
      delta runOne
      rw [if_neg hpath, if_neg (by simp [hstaged]), hsession]
      exact ⟨"rejected:snapshot".toList, rfl⟩
    | some root =>
      cases hfile : host.snapshotHasFile with
      | false =>
        delta runOne
        rw [if_neg hpath, if_neg (by simp [hstaged]), hsession]
        dsimp only
        rw [if_pos (by simp [hfile])]
        exact ⟨"rejected:missing-file".toList, rfl⟩
      | true =>
        rw [runOne_of_runs (runs_of_not_silent h hstaged hsession hfile)]
        exact ⟨_, rfl⟩

end OneTask

/-- A call that writes its entry: no exit without one is taken, and nothing is thrown
before it. -/
def Call.Accounted {options : Options} {task : Task} (call : Call options task) : Prop :=
  ¬ Silent options call.host task ∧ (call.ending = .returned ∨ call.early = false)

instance {options : Options} {task : Task} (call : Call options task) :
    Decidable call.Accounted :=
  inferInstanceAs (Decidable (_ ∧ _))

/-- The coverage of a slot is one entry for the task. -/
def HasEntry (task : Task) (slot : Observed) : Prop :=
  ∃ verdict, slot.coverage = [task.path ++ ':' :: verdict]

theorem coverage_afterEnding (result : Observed) (ending : Ending) :
    (afterEnding result ending).coverage = result.coverage := by
  cases ending with
  | returned => rfl
  | threw what => exact List.append_nil _
  | threwOther => exact List.append_nil _

namespace Call

variable {options : Options} {task : Task} {call : Call options task}

theorem hasEntry_of_accounted (h : call.Accounted) : HasEntry task call.left := by
  obtain ⟨hsilent, hending⟩ := h
  obtain ⟨verdict, hverdict⟩ : ∃ verdict,
      (runOne (options.within call.seconds) call.host task).coverage =
        [task.path ++ ':' :: verdict] := exists_runOne_coverage hsilent
  refine ⟨verdict, ?_⟩
  by_cases hreturned : call.ending = .returned
  · rw [call.whole hreturned, hverdict]
  · have hlate : call.early = false := hending.resolve_left hreturned
    rw [call.covered hreturned, hlate, if_neg Bool.false_ne_true, hverdict]

theorem coverage_of_not_accounted (h : ¬ call.Accounted) : call.left.coverage = [] := by
  by_cases hsilent : Silent options call.host task
  · have hnone : (runOne (options.within call.seconds) call.host task).coverage = [] :=
      runOne_coverage_of_silent hsilent
    have hbegins := call.begins.coverage
    rw [hnone] at hbegins
    exact List.prefix_nil.mp hbegins
  · have hthrown : call.ending ≠ .returned := fun hreturned => h ⟨hsilent, Or.inl hreturned⟩
    have hearly : call.early = true := by
      rw [← Bool.not_eq_false]
      exact fun hlate => h ⟨hsilent, Or.inr hlate⟩
    rw [call.covered hthrown, if_pos hearly]

theorem hasEntry_iff (ending : Ending) :
    HasEntry task (afterEnding call.left ending) ↔ call.Accounted := by
  rw [HasEntry, coverage_afterEnding]
  constructor
  · rintro ⟨verdict, hverdict⟩
    by_contra hnot
    rw [coverage_of_not_accounted hnot] at hverdict
    cases hverdict
  · exact hasEntry_of_accounted

end Call

/-! ## The slots -/

theorem coverage_mergeAll (result : Observed) (slots : List Observed) :
    (mergeAll result slots).coverage = result.coverage ++ slots.flatMap (·.coverage) := by
  induction slots generalizing result with
  | nil => exact (List.append_nil _).symm
  | cons slot slots ih =>
    rw [mergeAll, List.foldl_cons, ← mergeAll, ih, List.flatMap_cons, ← List.append_assoc]
    rfl

theorem forall₂_mapIdx_iff {α β : Type} {R : α → β → Prop} {l : List α} {f : Nat → α → β} :
    List.Forall₂ R l (l.mapIdx f) ↔ ∀ index a, l[index]? = some a → R a (f index a) := by
  rw [List.forall₂_iff_get]
  constructor
  · rintro ⟨_, hall⟩ index a hget
    obtain ⟨hindex, rfl⟩ := List.getElem?_eq_some_iff.mp hget
    simpa using hall index hindex (by simpa using hindex)
  · intro hall
    refine ⟨List.length_mapIdx.symm, ?_⟩
    intro index hindex _
    simpa using hall index l[index] (List.getElem?_eq_getElem hindex)

/-- The entries, one task after another. -/
theorem forall₂_coverage {tasks : List Task} {slots : List Observed}
    (h : List.Forall₂ HasEntry tasks slots) :
    List.Forall₂ (fun task entry => task.path ++ [':'] <+: entry) tasks
      (slots.flatMap (·.coverage)) := by
  induction h with
  | nil => exact List.Forall₂.nil
  | cons hentry _ ih =>
    obtain ⟨verdict, hverdict⟩ := hentry
    rw [List.flatMap_cons, hverdict]
    refine List.Forall₂.cons ⟨verdict, ?_⟩ ih
    rw [List.append_assoc]
    rfl

/-! ## Whole runs -/

/-- The call for the task at this index writes its entry. -/
def AccountedAt {options : Options} (tasks : List Task)
    (calls : Nat → (task : Task) → Call options task) (index : Nat) : Prop :=
  ∀ task ∈ tasks[index]?, (calls index task).Accounted

instance {options : Options} (tasks : List Task)
    (calls : Nat → (task : Task) → Call options task) (index : Nat) :
    Decidable (AccountedAt tasks calls index) :=
  inferInstanceAs (Decidable (∀ task ∈ tasks[index]?, _))

/-- A step that leaves no task without its entry. -/
def Covers {options : Options} (job : Job) (calls : Nat → (task : Task) → Call options task)
    (t : Schedule) (turn : Turn) : Prop :=
  ¬ GivesUp job t turn ∧ ∀ index ∈ finished t turn, AccountedAt job.tasks calls index

instance {options : Options} (job : Job) (calls : Nat → (task : Task) → Call options task)
    (t : Schedule) (turn : Turn) : Decidable (Covers job calls t turn) :=
  inferInstanceAs (Decidable (_ ∧ _))

/-- Every task is accounted for in a run that ends with this result. -/
structure Accounts (job : Job) (s : Schedule) (result : Observed) : Prop where
  /-- The slot of every task has one entry. -/
  slots : List.Forall₂ HasEntry job.tasks s.slots
  /-- For a task that nobody has drawn it is the entry of the deadline. -/
  undrawn : ∀ index task, job.tasks[index]? = some task → s.next ≤ index →
    s.slots[index]?.map (·.coverage) = some [task.path ++ ":skipped:global-timeout".toList]
  /-- The result has one entry for every task, in the order of the tasks. -/
  result : List.Forall₂ (fun task entry => task.path ++ [':'] <+: entry) job.tasks result.coverage

section Runs

variable {options : Options} {scripts hooks executables : List Text}
  {calls : Nat → (task : Task) → Call options task} {s : Schedule} {turns : List Turn}
  {outputs : List Unit} {result : Observed}

theorem hasEntry_runTask_iff {index : Nat} {task : Task} :
    HasEntry task ((Job.ofPackage options scripts hooks executables calls).runTask index task) ↔
      (calls index task).Accounted :=
  Call.hasEntry_iff _

/-- The slots all have their entry when every task was drawn and every call wrote one. -/
theorem forall₂_slots_iff
    (hI : ScheduleInv (Job.ofPackage options scripts hooks executables calls) s)
    (hend : s.main = .merged result) :
    List.Forall₂ HasEntry (tasksOf scripts hooks executables) s.slots ↔
      (tasksOf scripts hooks executables).length ≤ s.next ∧
        ∀ index ∈ s.ran, AccountedAt (tasksOf scripts hooks executables) calls index := by
  rw [hI.slots]
  refine Iff.trans forall₂_mapIdx_iff ?_
  constructor
  · intro hall
    constructor
    · by_contra hnext
      rw [Nat.not_le] at hnext
      have hcount := count_dealt hI hend hnext
      rw [if_neg (Nat.lt_irrefl _), Nat.add_eq_zero_iff, List.count_eq_zero,
        List.count_eq_zero] at hcount
      obtain ⟨verdict, hverdict⟩ := hall s.next _ (List.getElem?_eq_getElem hnext)
      rw [if_neg hcount.2, if_neg hcount.1] at hverdict
      cases hverdict
    · intro index hran task htask
      have hentry := hall index task htask
      rw [if_pos hran] at hentry
      exact hasEntry_runTask_iff.mp hentry
  · rintro ⟨hnext, haccounted⟩ index task htask
    by_cases hran : index ∈ s.ran
    · rw [if_pos hran]
      exact hasEntry_runTask_iff.mpr (haccounted index hran task htask)
    · have hindex := (List.getElem?_eq_some_iff.mp htask).1
      have hcount := count_dealt hI hend hindex
      rw [if_pos (Nat.lt_of_lt_of_le hindex hnext), List.count_eq_zero.mpr hran,
        Nat.add_zero] at hcount
      have hskipped : index ∈ s.skipped := List.one_le_count_iff.mp hcount.ge
      rw [if_neg hran, if_pos hskipped]
      exact ⟨"skipped:global-timeout".toList, rfl⟩

theorem coverage_merged
    (hI : ScheduleInv (Job.ofPackage options scripts hooks executables calls) s)
    (hend : s.main = .merged result) : result.coverage = s.slots.flatMap (·.coverage) := by
  have hmain := hI.main
  rw [MainInv, hend] at hmain
  rw [hmain.2.2, coverage_mergeAll]
  rfl

/-- Every slot has its entry exactly when no step of the run leaves a task without one. -/
theorem entries_iff
    (hrun : Machine.run (scheduleStep (Job.ofPackage options scripts hooks executables calls))
      (Job.ofPackage options scripts hooks executables calls).start turns = some (outputs, s))
    (hend : s.main = .merged result) :
    List.Forall₂ HasEntry (tasksOf scripts hooks executables) s.slots ↔
      Machine.Along (scheduleStep (Job.ofPackage options scripts hooks executables calls))
        (Covers (Job.ofPackage options scripts hooks executables calls) calls)
        (Job.ofPackage options scripts hooks executables calls).start turns := by
  have hI := run_inv hrun
  have hnext := (lost_iff_next hI hend).not.symm.trans (not_lost_iff hrun)
  rw [Nat.not_lt] at hnext
  have hran := along_finished_iff (AccountedAt (tasksOf scripts hooks executables) calls) hrun
  refine (forall₂_slots_iff hI hend).trans ?_
  exact (and_congr hnext hran.symm).trans Machine.along_and.symm

/-- Take any scripts, hooks and executables, any outcome of every call of `run_one`, any
number of workers and any interleaving of the threads, with the deadline passing at any
point of it. Every task is accounted for if and only if no call ends at the path filter, at
a cgroup that cannot be created, or with something thrown before its entry, and no step is
the one in which the last worker returns with tasks left. -/
theorem accounts_iff
    (hrun : Machine.run (scheduleStep (Job.ofPackage options scripts hooks executables calls))
      (Job.ofPackage options scripts hooks executables calls).start turns = some (outputs, s))
    (hend : s.main = .merged result) :
    Accounts (Job.ofPackage options scripts hooks executables calls) s result ↔
      Machine.Along (scheduleStep (Job.ofPackage options scripts hooks executables calls))
        (Covers (Job.ofPackage options scripts hooks executables calls) calls)
        (Job.ofPackage options scripts hooks executables calls).start turns := by
  have hI := run_inv hrun
  rw [← entries_iff hrun hend]
  constructor
  · intro haccounts
    exact haccounts.slots
  · intro hentries
    refine ⟨hentries, ?_, ?_⟩
    · intro index task htask hundrawn
      have hindex : index < (tasksOf scripts hooks executables).length :=
        (List.getElem?_eq_some_iff.mp htask).1
      have hdrawn := ((forall₂_slots_iff hI hend).mp hentries).1
      omega
    · rw [coverage_merged hI hend]
      exact forall₂_coverage hentries

end Runs

/-- A call that returns. -/
def Call.returning (options : Options) (host : TaskHost) (task : Task) : Call options task where
  host := host
  seconds := options.timeout
  left := runOne (options.within options.timeout) host task
  begins := Observed.Begins.refl _
  whole _ := rfl
  covered h := absurd rfl h

/-- A call that throws before it has written anything. -/
def Call.throwing (options : Options) (host : TaskHost) (task : Task) (what : Text) :
    Call options task where
  host := host
  seconds := options.timeout
  ending := .threw what
  early := true
  left := {}
  begins := ⟨List.nil_prefix, List.nil_prefix, List.nil_prefix, List.nil_prefix, List.nil_prefix,
    List.nil_prefix⟩
  whole h := nomatch h
  covered _ := rfl

/-- Where a run ends, and its result, if it ends. -/
def outcome (job : Job) (turns : List Turn) : Option (Schedule × Observed) :=
  match Machine.run (scheduleStep job) job.start turns with
  | none => none
  | some (_, s) =>
    match s.main with
    | .merged result => some (s, result)
    | _ => none

theorem exists_run_of_outcome {job : Job} {turns : List Turn} {p : Schedule × Observed → Bool}
    (h : (outcome job turns).any p = true) :
    ∃ outputs s result, Machine.run (scheduleStep job) job.start turns = some (outputs, s) ∧
      s.main = .merged result ∧ p (s, result) = true := by
  obtain ⟨⟨s, result⟩, houtcome, hp⟩ := (Option.any_eq_true p _).mp h
  rw [outcome] at houtcome
  split at houtcome
  · cases houtcome
  · rename_i outputs s' hrun
    split at houtcome
    · rename_i result' hend
      cases houtcome
      exact ⟨outputs, s, result, hrun, hend, hp⟩
    · cases houtcome

/-- Executables that are not in the staged root, and one worker. -/
def unstagedJob (executables : List Text) : Job :=
  Job.ofPackage { maxWorkers := 1 } [] [] executables
    fun _ task => Call.returning _ { staged := false } task

/-- The only worker runs the first task, and draws the second one after the deadline. -/
def overdueTurns : List Turn :=
  .main 0 :: List.replicate 6 (.worker 0 false) ++ .worker 0 true :: List.replicate 4 (.main 0)

theorem accounts_overdueTurns :
    ∃ outputs s result,
      Machine.run (scheduleStep (unstagedJob ["usr/bin/a".toList, "usr/bin/b".toList]))
        (unstagedJob ["usr/bin/a".toList, "usr/bin/b".toList]).start overdueTurns =
          some (outputs, s) ∧
      s.main = .merged result ∧
      Accounts (unstagedJob ["usr/bin/a".toList, "usr/bin/b".toList]) s result := by
  obtain ⟨outputs, s, result, hrun, hend, _⟩ := exists_run_of_outcome (p := fun _ => true)
    (show (outcome (unstagedJob ["usr/bin/a".toList, "usr/bin/b".toList]) overdueTurns).any _ by
      decide)
  refine ⟨outputs, s, result, hrun, hend, ?_⟩
  exact (accounts_iff hrun hend).mpr (by decide)

/-- The only worker runs one task and finds the list exhausted. -/
def soloTurns : List Turn :=
  .main 0 :: List.replicate 7 (.worker 0 false) ++ List.replicate 4 (.main 0)

/-- The only worker draws the first task after the deadline. -/
def lateTurns : List Turn :=
  .main 0 :: List.replicate 2 (.worker 0 false) ++ .worker 0 true :: List.replicate 4 (.main 0)

/-- A name that `list` accepts and the path filter of `run_one` does not. -/
def dottedPath : Text := "usr/bin/a..b".toList

theorem plainFile_dotted : '\x00' ∉ dottedPath ∧ Canonical dottedPath 4096 := by
  decide

/-- Some tasks of the job have no entry at the end of this run. -/
def Misses (job : Job) (turns : List Turn) : Prop :=
  ∃ outputs s result, Machine.run (scheduleStep job) job.start turns = some (outputs, s) ∧
    s.main = .merged result ∧ result.coverage.length < job.tasks.length ∧
    ¬ Accounts job s result

theorem misses_of_outcome {job : Job} {turns : List Turn}
    (h : (outcome job turns).any (fun r => r.2.coverage.length < job.tasks.length) = true) :
    Misses job turns := by
  obtain ⟨outputs, s, result, hrun, hend, hfew⟩ := exists_run_of_outcome h
  have hfew : result.coverage.length < job.tasks.length := of_decide_eq_true hfew
  refine ⟨outputs, s, result, hrun, hend, hfew, ?_⟩
  intro haccounts
  have hlength := haccounts.result.length_eq
  omega

/-- No entry is left for an executable with two dots in its name, for one whose cgroup cannot
be created, for one whose call throws, and for the second of two when the deadline passes
before the only worker has drawn the first. -/
theorem accounts_fails :
    (list (filesArchive [(dottedPath, "#!/bin/sh\n".toList)]) =
        .ok (filesListing [(dottedPath, "#!/bin/sh\n".toList)]) ∧
      Misses (Job.ofPackage {} [] [] [dottedPath] fun _ task => Call.returning _ {} task)
        soloTurns) ∧
    Misses (Job.ofPackage { cgroupRoot := "/sys/fs/cgroup/x".toList } [] [] [tool.path]
      fun _ task => Call.returning _ { cgroupCreated := false } task) soloTurns ∧
    Misses (Job.ofPackage {} [] [] [tool.path]
      fun _ task => Call.throwing _ {} task "filesystem error".toList) soloTurns ∧
    Misses (unstagedJob ["usr/bin/a".toList, "usr/bin/b".toList]) lateTurns := by
  refine ⟨⟨?_, misses_of_outcome (by decide)⟩, misses_of_outcome (by decide),
    misses_of_outcome (by decide), misses_of_outcome (by decide)⟩
  exact list_filesArchive (List.forall_mem_singleton.mpr plainFile_dotted) (by decide) (by decide)

end ExeCell.Package
