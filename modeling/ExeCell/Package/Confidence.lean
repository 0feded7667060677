import ExeCell.Package.Coverage
import ExeCell.Sandbox.FailClosed
import ExeCell.Sandbox.Outcome

/-!
# The confidence of a scan

`scan` takes the number of entries in the coverage for the number of tasks that were
observed, also when an entry says that its task was skipped or rejected, or stands for a
sandbox that has failed before it started anything.

* `confidence_eq_iff`: the confidence is 100 when every task has an entry.
* `confidence_iff`: this is earned exactly when no entry stands for a task that was not
  started.
-/

namespace ExeCell.Package

/-! ## The end of `observe`, and the percentage -/

/-- What `observe` looks for in the staged root after the tasks. -/
structure RootHost where
  present : Text → Bool
  /-- A file of the root has the setuid bit. -/
  setuid : Bool

/-- What `observe` adds to the merged slots. -/
def rootEntries (root : RootHost) : Observed :=
  let service :=
    root.present "etc/systemd/system".toList || root.present "etc/init.d".toList
  let scheduled :=
    root.present "etc/cron.d".toList || root.present "etc/cron.hourly".toList ||
      root.present "etc/cron.daily".toList
  let found (here : Bool) (text : Text) : List Text := if here then [text] else []
  { riskFactors :=
      found service "service activation or persistence path present".toList ++
        found scheduled "scheduled persistence path present".toList ++
        found root.setuid "setuid payload present".toList
    events :=
      found service "\x7b\"schema_version\":1,\"type\":\"service_path\"\x7d".toList ++
        found scheduled "\x7b\"schema_version\":1,\"type\":\"persistence_path\"\x7d".toList ++
        found root.setuid "\x7b\"schema_version\":1,\"type\":\"privilege_change\"\x7d".toList ++
        ["\x7b\"schema_version\":1,\"type\":\"observation_complete\"\x7d".toList] }

/-- The result of `observe` whose workers have left the merged result. -/
def observed (root : RootHost) (merged : Observed) : Observed := merged.append (rootEntries root)

/-- The options that `scan` gives to `observe`. -/
def observationOptions (options : ScanOptions) : Options where
  timeout := options.timeout
  globalTimeout := options.timeout
  network := options.network = "mirror".toList
  maxWorkers := options.workers
  cgroupRoot := options.cgroupRoot

/-- `coverage_confidence`. -/
def coverageConfidence (coverage : List Text) (expected : Nat) : Nat :=
  if expected = 0 then 0 else min 100 (coverage.length * 100 / expected)

theorem coverage_observed (root : RootHost) (merged : Observed) :
    (observed root merged).coverage = merged.coverage :=
  List.append_nil _

theorem coverageConfidence_eq_iff (coverage : List Text) (expected : Nat) :
    coverageConfidence coverage expected = 100 ↔ 0 < expected ∧ expected ≤ coverage.length := by
  rw [coverageConfidence]
  split
  · omega
  · rename_i hexpected
    have hpos : 0 < expected := Nat.pos_of_ne_zero hexpected
    rw [and_iff_right hpos, min_eq_left_iff, Nat.le_div_iff_mul_le hpos]
    omega

/-! ## The sandbox of a call -/

/-- What the system calls of the sandbox of a call answer. -/
structure Sandboxed {options : Options} {task : Task} (call : Call options task) where
  /-- There is nothing when the call ends before it runs its sandbox. -/
  run : Option Sandbox.CaptureRun
  reached : run.isSome = true → ∃ root, Runs (options.within call.seconds) call.host task root
  captures : ∀ root, Runs (options.within call.seconds) call.host task root →
    call.ending = .returned ∨ call.early = false →
    ∃ sandbox, run = some sandbox ∧
      sandbox.captured (taskConfig (options.within call.seconds) call.host root) (command task)
          options.outputLimit =
        some (capturedOf (options.within call.seconds) call.host task root)

namespace Sandboxed

variable {options : Options} {task : Task} {call : Call options task}

/-- In every sandbox that is run for the call, the setup comes to its end and the target is
executed. -/
def Executes (sandboxed : Sandboxed call) : Prop :=
  ∀ sandbox ∈ sandboxed.run, ∀ root ∈ call.host.session,
    (sandbox.targetEnding
      (taskConfig (options.within call.seconds) call.host root)).isSome = true

/-- The file was started inside its sandbox. -/
def Started (sandboxed : Sandboxed call) : Prop :=
  ∃ sandbox root, sandboxed.run = some sandbox ∧ call.host.session = some root ∧
    (sandbox.targetEnding
      (taskConfig (options.within call.seconds) call.host root)).isSome = true

/-- What it takes for the file to be started: it is in the staged root and in a snapshot of
it, and the sandbox comes as far as its target. -/
structure Ready (sandboxed : Sandboxed call) : Prop where
  staged : call.host.staged = true
  session : call.host.session.isSome = true
  snapshotHasFile : call.host.snapshotHasFile = true
  executes : sandboxed.Executes

theorem started_iff {sandboxed : Sandboxed call} (haccounted : call.Accounted) :
    sandboxed.Started ↔ sandboxed.Ready := by
  constructor
  · rintro ⟨sandbox, root, hrun, hsession, htarget⟩
    obtain ⟨_, _, _, hstaged, _, hfile, _⟩ := sandboxed.reached (by rw [hrun]; rfl)
    refine ⟨hstaged, by rw [hsession]; rfl, hfile, ?_⟩
    intro sandbox' hrun' root' hsession'
    rw [hrun] at hrun'
    rw [hsession] at hsession'
    cases hrun'
    cases hsession'
    exact htarget
  · intro hready
    obtain ⟨root, hsession⟩ := Option.isSome_iff_exists.mp hready.session
    obtain ⟨hsilent, hending⟩ := haccounted
    have hruns : Runs (options.within call.seconds) call.host task root :=
      runs_of_not_silent hsilent hready.staged hsession hready.snapshotHasFile
    obtain ⟨sandbox, hrun, _⟩ := sandboxed.captures root hruns hending
    exact ⟨sandbox, root, hrun, hsession, hready.executes sandbox hrun root hsession⟩

end Sandboxed

/-! ## Whole scans -/

/-- If the call for the task at this index writes its entry, the file can be started. -/
def ReadyAt {options : Options} (tasks : List Task)
    {calls : Nat → (task : Task) → Call options task}
    (sandboxes : (index : Nat) → (task : Task) → Sandboxed (calls index task)) (index : Nat) :
    Prop :=
  ∀ task ∈ tasks[index]?, (calls index task).Accounted → (sandboxes index task).Ready

/-- A step that writes no entry for a task that is not started. -/
def Starts {options : Options} (job : Job) {calls : Nat → (task : Task) → Call options task}
    (sandboxes : (index : Nat) → (task : Task) → Sandboxed (calls index task)) (t : Schedule)
    (turn : Turn) : Prop :=
  dropped job t turn = [] ∧ ∀ index ∈ finished t turn, ReadyAt job.tasks sandboxes index

/-- Every task has been started inside its sandbox. -/
def AllStarted {options : Options} (tasks : List Task)
    {calls : Nat → (task : Task) → Call options task}
    (sandboxes : (index : Nat) → (task : Task) → Sandboxed (calls index task)) (s : Schedule) :
    Prop :=
  ∀ index, ∀ task ∈ tasks[index]?, index ∈ s.ran ∧ (sandboxes index task).Started

/-- The job of the `observe` of a scan. -/
def scanJob (options : ScanOptions) (metadata : Metadata)
    (calls : Nat → (task : Task) → Call (observationOptions options) task) : Job :=
  Job.ofPackage (observationOptions options) metadata.scripts metadata.hooks metadata.executables
    calls

/-- The `coverage_confidence` of a scan whose workers have left the merged result. -/
def scanConfidence (metadata : Metadata) (root : RootHost) (merged : Observed) : Nat :=
  coverageConfidence (observed root merged).coverage
    (metadata.scripts.length + metadata.hooks.length + metadata.executables.length)

theorem length_tasksOf (scripts hooks executables : List Text) :
    (tasksOf scripts hooks executables).length =
      scripts.length + hooks.length + executables.length := by
  simp [tasksOf, Nat.add_assoc]

section Count

variable {tasks : List Task} {slots : List Observed}

theorem length_coverage_le
    (h : List.Forall₂ (fun task slot => HasEntry task slot ∨ slot.coverage = []) tasks slots) :
    (slots.flatMap (·.coverage)).length ≤ tasks.length := by
  induction h with
  | nil => exact Nat.le_refl _
  | cons hslot _ ih =>
    rw [List.flatMap_cons, List.length_append, List.length_cons]
    rcases hslot with ⟨verdict, hverdict⟩ | hnone
    · rw [hverdict, List.length_singleton]
      omega
    · rw [hnone, List.length_nil]
      omega

/-- There are as many entries as tasks only when every slot has one. -/
theorem length_coverage_iff
    (h : List.Forall₂ (fun task slot => HasEntry task slot ∨ slot.coverage = []) tasks slots) :
    tasks.length ≤ (slots.flatMap (·.coverage)).length ↔ List.Forall₂ HasEntry tasks slots := by
  induction h with
  | nil => simp
  | cons hslot hrest ih =>
    have hle := length_coverage_le hrest
    rw [List.flatMap_cons, List.length_append, List.length_cons, List.forall₂_cons, ← ih]
    rcases hslot with ⟨verdict, hverdict⟩ | hnone
    · rw [hverdict, List.length_singleton, and_iff_right ⟨verdict, hverdict⟩]
      omega
    · refine iff_of_false (by rw [hnone, List.length_nil]; omega) ?_
      rintro ⟨⟨verdict, hverdict⟩, _⟩
      rw [hnone] at hverdict
      cases hverdict

end Count

section Confidence

variable {options : Options} {scripts hooks executables : List Text}
  {calls : Nat → (task : Task) → Call options task} {s : Schedule} {turns : List Turn}
  {outputs : List Unit} {result : Observed}

/-- The confidence is 100 when there are tasks and every slot has its entry. -/
theorem confidence_eq_iff (root : RootHost)
    (hI : ScheduleInv (Job.ofPackage options scripts hooks executables calls) s)
    (hend : s.main = .merged result) :
    coverageConfidence (observed root result).coverage
        (scripts.length + hooks.length + executables.length) = 100 ↔
      tasksOf scripts hooks executables ≠ [] ∧
        List.Forall₂ HasEntry (tasksOf scripts hooks executables) s.slots := by
  have hslots : List.Forall₂ (fun task slot => HasEntry task slot ∨ slot.coverage = [])
      (tasksOf scripts hooks executables) s.slots := by
    rw [hI.slots]
    apply forall₂_mapIdx_iff.mpr
    intro index task _
    split
    · by_cases haccounted : (calls index task).Accounted
      · exact Or.inl (hasEntry_runTask_iff.mpr haccounted)
      · right
        exact (coverage_afterEnding _ _).trans (Call.coverage_of_not_accounted haccounted)
    · split
      · exact Or.inl ⟨"skipped:global-timeout".toList, rfl⟩
      · exact Or.inr rfl
  rw [coverageConfidence_eq_iff, ← length_tasksOf, List.length_pos_iff, coverage_observed,
    coverage_merged hI hend, length_coverage_iff hslots]

/-- In a run that leaves an entry for every task, all of them were started exactly when none
was skipped and every call could start its file. -/
theorem allStarted_iff {sandboxes : (index : Nat) → (task : Task) → Sandboxed (calls index task)}
    (hrun : Machine.run (scheduleStep (Job.ofPackage options scripts hooks executables calls))
      (Job.ofPackage options scripts hooks executables calls).start turns = some (outputs, s))
    (hend : s.main = .merged result)
    (hentries : List.Forall₂ HasEntry (tasksOf scripts hooks executables) s.slots) :
    AllStarted (tasksOf scripts hooks executables) sandboxes s ↔
      s.skipped = [] ∧
        ∀ index ∈ s.ran, ReadyAt (tasksOf scripts hooks executables) sandboxes index := by
  have hI := run_inv hrun
  obtain ⟨hdrawn, haccounted⟩ := (forall₂_slots_iff hI hend).mp hentries
  have hcount : ∀ index < (tasksOf scripts hooks executables).length,
      s.skipped.count index + s.ran.count index = 1 := by
    intro index hindex
    have hdealt := count_dealt hI hend hindex
    rwa [if_pos (Nat.lt_of_lt_of_le hindex hdrawn)] at hdealt
  constructor
  · intro hstarted
    constructor
    · apply List.eq_nil_iff_forall_not_mem.mpr
      intro index hskipped
      have hindex : index < (tasksOf scripts hooks executables).length :=
        hI.tickets.within index (List.mem_append_left _ hskipped)
      have hran := (hstarted index _ (List.getElem?_eq_getElem hindex)).1
      have hone := hcount index hindex
      have hskips := List.one_le_count_iff.mpr hskipped
      have hruns := List.one_le_count_iff.mpr hran
      omega
    · intro index hran task htask hwrites
      exact (Sandboxed.started_iff hwrites).mp (hstarted index task htask).2
  · rintro ⟨hskipped, hready⟩ index task htask
    have hone := hcount index (List.getElem?_eq_some_iff.mp htask).1
    rw [hskipped, List.count_nil, Nat.zero_add] at hone
    have hran : index ∈ s.ran := List.one_le_count_iff.mp hone.ge
    have hwrites := haccounted index hran task htask
    exact ⟨hran, (Sandboxed.started_iff hwrites).mpr (hready index hran task htask hwrites)⟩

end Confidence

/-- Take any package and any options of a scan, any outcome of every call of `run_one` and of
its sandbox, and any interleaving of the threads. A confidence of 100 means that every
script, hook and executable was started in its sandbox, if and only if there are none, or the
run leaves one of them without an entry, or it skips none and finds every file whose call
writes an entry staged, in its snapshot, and executed by its sandbox. -/
theorem confidence_iff {options : ScanOptions} {metadata : Metadata} {root : RootHost}
    {calls : Nat → (task : Task) → Call (observationOptions options) task}
    {sandboxes : (index : Nat) → (task : Task) → Sandboxed (calls index task)}
    {s : Schedule} {turns : List Turn} {outputs : List Unit} {result : Observed}
    (hrun : Machine.run (scheduleStep (scanJob options metadata calls))
      (scanJob options metadata calls).start turns = some (outputs, s))
    (hend : s.main = .merged result) :
    (scanConfidence metadata root result = 100 →
        AllStarted (scanJob options metadata calls).tasks sandboxes s) ↔
      ((scanJob options metadata calls).tasks ≠ [] →
        Machine.Along (scheduleStep (scanJob options metadata calls))
          (Covers (scanJob options metadata calls) calls)
          (scanJob options metadata calls).start turns →
        Machine.Along (scheduleStep (scanJob options metadata calls))
          (Starts (scanJob options metadata calls) sandboxes)
          (scanJob options metadata calls).start turns) := by
  have hconfidence := confidence_eq_iff root (run_inv hrun) hend
  have hcovers := entries_iff hrun hend
  have hstarts : Machine.Along (scheduleStep (scanJob options metadata calls))
      (Starts (scanJob options metadata calls) sandboxes)
      (scanJob options metadata calls).start turns ↔
        s.skipped = [] ∧
          ∀ index ∈ s.ran, ReadyAt (scanJob options metadata calls).tasks sandboxes index :=
    Machine.along_and.trans (and_congr (along_dropped_iff hrun) (along_finished_iff _ hrun))
  rw [hstarts]
  constructor
  · intro honest htasks hsteps
    have hentries := hcovers.mpr hsteps
    exact (allStarted_iff hrun hend hentries).mp (honest (hconfidence.mpr ⟨htasks, hentries⟩))
  · intro hsteps hfull
    obtain ⟨htasks, hentries⟩ := hconfidence.mp hfull
    exact (allStarted_iff hrun hend hentries).mpr (hsteps htasks (hcovers.mp hentries))

/-- The sandbox of a call that returns, unless the call ends before it runs one. -/
def Sandboxed.ofRun {options : Options} {host : TaskHost} {task : Task} {root : Text}
    (sandbox : Sandbox.CaptureRun) (hstaged : host.staged = true)
    (hsession : host.session = some root) (hfile : host.snapshotHasFile = true)
    (hcaptured : sandbox.captured (taskConfig (options.within options.timeout) host root)
        (command task) options.outputLimit =
      some (capturedOf (options.within options.timeout) host task root)) :
    Sandboxed (Call.returning options host task) where
  run := if Silent options host task then none else some sandbox
  reached := by
    intro hsome
    split at hsome
    · cases hsome
    · rename_i hsilent
      exact ⟨root, runs_of_not_silent hsilent hstaged hsession hfile⟩
  captures := by
    intro root' hruns _
    have hsilent : ¬ Silent options host task := not_silent_of_runs hruns
    have hsession' : host.session = some root' := hruns.2.2.2.1
    rw [hsession] at hsession'
    cases hsession'
    exact ⟨sandbox, if_neg hsilent, hcaptured⟩

/-- Nothing of this kind is found in the root. -/
def bareRoot : RootHost := { present := fun _ => false, setuid := false }

/-- A package with one executable. -/
def toolPackage : Metadata := { package := packagePath, executables := [tool.path] }

/-- A setup on which nothing fails, with a root and its two mounts. -/
def toolMoves : List Sandbox.Move :=
  Sandbox.quietSetup [] ([0, 0, 0, 0, 1, 0, 1, 0] ++ List.replicate 14 0)

/-- A sandbox whose setup is answered so; the target would exit with status zero. -/
def sandboxWith (moves : List Sandbox.Move) : Sandbox.CaptureRun where
  run :=
    { host := {}, ids := { pid := 101, uid := 1000, gid := 1000 }, moves := moves,
      trace := .reporting {} }
  passes := [{ out := { last := .eof }, err := { last := .eof } }]

/-- A host whose sandboxes end with this status. -/
def hostEnding (status : Int) : TaskHost where
  capture _ _ := { status := status }

def scanTaskConfig (host : TaskHost) : Sandbox.Config :=
  taskConfig ((observationOptions {}).within (observationOptions {}).timeout) host snapshotRoot

theorem sandboxWith_captured {moves : List Sandbox.Move} {config : Sandbox.Config} {code : Nat}
    (hcode : code < 256) (h : (sandboxWith moves).run.result config = some (code : Int))
    (task : Task) (limit : Nat) :
    (sandboxWith moves).captured config (command task) limit = some { status := code } := by
  have hanswers := Sandbox.CaptureRun.captureEnv_of_result rfl rfl rfl h
  have hstatus : Sandbox.captureStatus false (WaitStatus.ofExit code) = code := by
    rw [Sandbox.captureStatus, if_neg Bool.false_ne_true,
      if_pos (WaitStatus.ifExited_ofExit code), WaitStatus.exitStatus_ofExit,
      Nat.mod_eq_of_lt hcode]
  rw [Sandbox.CaptureRun.captured, hanswers]
  obtain ⟨path, script⟩ := task
  cases script with
  | false => exact congrArg (fun status => some { status := status : Sandbox.Captured }) hstatus
  | true => exact congrArg (fun status => some { status := status : Sandbox.Captured }) hstatus

/-- A call that captures an empty output and this status. -/
def sandboxedCalls (code : Nat) (_ : Nat) (task : Task) : Call (observationOptions {}) task :=
  Call.returning _ (hostEnding code) task

/-- The sandbox of such a call. -/
def sandboxes {moves : List Sandbox.Move} {code : Nat} (hcode : code < 256)
    (h : (sandboxWith moves).run.result (scanTaskConfig (hostEnding code)) = some (code : Int))
    (index : Nat) (task : Task) : Sandboxed (sandboxedCalls code index task) :=
  Sandboxed.ofRun (sandboxWith moves) rfl rfl rfl (sandboxWith_captured hcode h task _)

theorem sandboxes_run {moves : List Sandbox.Move} {code : Nat} {hcode : code < 256}
    {h : (sandboxWith moves).run.result (scanTaskConfig (hostEnding code)) = some (code : Int)}
    {index : Nat} {task : Task} {sandbox : Sandbox.CaptureRun} {root : Text}
    (hrun : (sandboxes hcode h index task).run = some sandbox)
    (hsession : (sandboxedCalls code index task).host.session = some root) :
    sandbox = sandboxWith moves ∧ root = snapshotRoot := by
  have hroot : some snapshotRoot = some root := hsession
  have hrun' : (if Silent (observationOptions {}) (hostEnding code) task then none
      else some (sandboxWith moves)) = some sandbox := hrun
  split at hrun'
  · cases hrun'
  · exact ⟨(Option.some.inj hrun').symm, (Option.some.inj hroot).symm⟩

theorem tool_result :
    (sandboxWith toolMoves).run.result (scanTaskConfig (hostEnding 0)) = some 0 := by decide

/-- The only executable is started, and the confidence is 100. -/
theorem confidence_tool :
    ∃ outputs s result,
      Machine.run (scheduleStep (scanJob {} toolPackage (sandboxedCalls 0)))
        (scanJob {} toolPackage (sandboxedCalls 0)).start soloTurns = some (outputs, s) ∧
      s.main = .merged result ∧ scanConfidence toolPackage bareRoot result = 100 ∧
      AllStarted (scanJob {} toolPackage (sandboxedCalls 0)).tasks
        (sandboxes (Nat.zero_lt_succ _) tool_result) s := by
  obtain ⟨outputs, s, result, hrun, hend, hfull⟩ := exists_run_of_outcome
    (p := fun r => scanConfidence toolPackage bareRoot r.2 = 100)
    (show (outcome (scanJob {} toolPackage (sandboxedCalls 0)) soloTurns).any _ by decide)
  have hstarted : ((sandboxWith toolMoves).targetEnding
      (scanTaskConfig (hostEnding 0))).isSome = true := by decide
  refine ⟨outputs, s, result, hrun, hend, of_decide_eq_true hfull, ?_⟩
  refine (confidence_iff hrun hend).mpr (fun _ _ => ?_) (of_decide_eq_true hfull)
  apply Machine.along_of_forall_mem
  intro turn hturn t
  have hexpired : ∀ turn ∈ soloTurns, turn.expired = false := by decide
  refine ⟨dropped_eq_nil (hexpired turn hturn), ?_⟩
  intro index _ task _ _
  refine ⟨rfl, rfl, rfl, ?_⟩
  intro sandbox hsandbox root hroot
  obtain ⟨rfl, rfl⟩ := sandboxes_run hsandbox hroot
  exact hstarted

/-- A setup whose `unshare` of the mount namespace fails. -/
def refusedMoves : List Sandbox.Move := toolMoves.take 16 ++ [.child (.fail 1)]

theorem refused_result :
    (sandboxWith refusedMoves).run.result (scanTaskConfig (hostEnding 127)) = some 127 := by decide

/-- The confidence of this run is 100, and not every task was started. -/
def Overstates {options : ScanOptions} (metadata : Metadata)
    {calls : Nat → (task : Task) → Call (observationOptions options) task}
    (sandboxes : (index : Nat) → (task : Task) → Sandboxed (calls index task))
    (turns : List Turn) : Prop :=
  ∃ outputs s result,
    Machine.run (scheduleStep (scanJob options metadata calls))
      (scanJob options metadata calls).start turns = some (outputs, s) ∧
    s.main = .merged result ∧ scanConfidence metadata bareRoot result = 100 ∧
    ¬ AllStarted (scanJob options metadata calls).tasks sandboxes s

theorem overstates_of_outcome {options : ScanOptions} {metadata : Metadata}
    {calls : Nat → (task : Task) → Call (observationOptions options) task}
    {sandboxes : (index : Nat) → (task : Task) → Sandboxed (calls index task)}
    {turns : List Turn} (index : Nat) (task : Task)
    (htask : (scanJob options metadata calls).tasks[index]? = some task)
    (hnot : ¬ (sandboxes index task).Started)
    (h : (outcome (scanJob options metadata calls) turns).any
      (fun r => scanConfidence metadata bareRoot r.2 = 100) = true) :
    Overstates metadata sandboxes turns := by
  obtain ⟨outputs, s, result, hrun, hend, hfull⟩ := exists_run_of_outcome h
  refine ⟨outputs, s, result, hrun, hend, of_decide_eq_true hfull, ?_⟩
  intro hstarted
  exact hnot (hstarted index task htask).2

/-- The file of the call is not in the staged root. -/
def unstagedCalls (_ : Nat) (task : Task) : Call (observationOptions {}) task :=
  Call.returning _ { staged := false } task

def unstagedSandboxes (index : Nat) (task : Task) : Sandboxed (unstagedCalls index task) where
  run := none
  reached h := nomatch h
  captures := by
    intro root hruns
    cases hruns.2.2.1

/-- The confidence is 100 for an executable that is not staged, for one that is drawn after
the deadline, and for one whose sandbox fails before it starts anything. -/
theorem confidence_overstates :
    Overstates toolPackage unstagedSandboxes soloTurns ∧
      Overstates toolPackage unstagedSandboxes lateTurns ∧
      Overstates toolPackage
        (sandboxes (show 127 < 256 by decide) refused_result) soloTurns := by
  have hunstaged : ¬ (unstagedSandboxes 0 tool).Started := by
    rintro ⟨sandbox, root, hrun, _⟩
    cases hrun
  refine ⟨overstates_of_outcome 0 tool rfl hunstaged (by decide),
    overstates_of_outcome 0 tool rfl hunstaged (by decide), ?_⟩
  refine overstates_of_outcome 0 tool rfl ?_ (by decide)
  rintro ⟨sandbox, root, hrun, hsession, htarget⟩
  obtain ⟨rfl, rfl⟩ := sandboxes_run hrun hsession
  exact absurd htarget (by decide)

end ExeCell.Package
