import ExeCell.Lib.Search
import ExeCell.Sandbox.Config
import ExeCell.Sandbox.Capture

/-!
# Observing a package

`observation::run_one`, which runs one script or executable of a staged package in a
sandbox and turns what it captured into the entries of a `Result`, and the parts of
`observation::observe` around its worker threads.
-/

namespace ExeCell.Package

open Sandbox (Config Captured attestation defaultPackageSyscalls)

/-- `observation::Options`. The two timeouts are in seconds. -/
structure Options where
  timeout : Nat := 30
  globalTimeout : Nat := 30
  network : Bool := false
  maxWorkers : Nat := 4
  outputLimit : Nat := 1048576
  cgroupRoot : Text := []
  deriving DecidableEq, Repr

/-- `observation::Result`. -/
structure Observed where
  events : List Text := []
  processes : List Text := []
  network : List Text := []
  smoke : List Text := []
  riskFactors : List Text := []
  coverage : List Text := []
  deriving DecidableEq, Repr

/-- The insertions of one result behind another, field by field. -/
def Observed.append (r r' : Observed) : Observed where
  events := r.events ++ r'.events
  processes := r.processes ++ r'.processes
  network := r.network ++ r'.network
  smoke := r.smoke ++ r'.smoke
  riskFactors := r.riskFactors ++ r'.riskFactors
  coverage := r.coverage ++ r'.coverage

/-- A script or executable to run. -/
structure Task where
  path : Text
  script : Bool
  deriving DecidableEq, Repr

/-- `escape`. -/
def escape (value : Text) : Text :=
  value.flatMap fun c =>
    if c = '"' ∨ c = '\\' then ['\\', c]
    else if c = '\n' then ['\\', 'n']
    else if c = '\r' then ['\\', 'r']
    else [c]

/-! ## One task -/

def traceMarker : Text := "EXECELL_TRACE:".toList

/-- The loop of `run_one` over the captured standard error: every occurrence of the
marker starts an event, which ends before the next newline. The fuel is the length of
the text. -/
def traceLoop : Nat → Text → List Text
  | 0, _ => []
  | fuel + 1, text =>
    match Search.afterFirst traceMarker text with
    | none => []
    | some rest =>
      rest.takeWhile (· ≠ '\n') :: traceLoop fuel ((rest.dropWhile (· ≠ '\n')).drop 1)

def traceEvents (stderrData : Text) : List Text := traceLoop stderrData.length stderrData

/-- What the events of the trace add to a result. -/
def traceEvidence (stderrData : Text) : Observed where
  events := traceEvents stderrData
  network := (traceEvents stderrData).filter (Search.occurs "network_".toList)
  processes := (traceEvents stderrData).filter (Search.occurs "process_".toList)

/-- What `run_one` finds on the host and in the sandbox. -/
structure TaskHost where
  /-- The path is a regular file in the staged root. -/
  staged : Bool := true
  /-- The isolated snapshot of the root. -/
  session : Option Text := some "/tmp/execell-observe/root".toList
  /-- The path is a regular file in the snapshot. -/
  snapshotHasFile : Bool := true
  pid : Nat := 1
  sequence : Nat := 1
  cgroupCreated : Bool := true
  capture : List Text → Config → Captured := fun _ _ => {}

/-- The cgroup of the task, empty when no cgroup root is set. -/
def taskCgroup (options : Options) (host : TaskHost) : Text :=
  if options.cgroupRoot = [] then []
  else LexicalPath.append options.cgroupRoot
    ("execell-task-".toList ++ Text.ofNat host.pid ++ '-' :: Text.ofNat host.sequence)

/-- The sandbox of the task. -/
def taskConfig (options : Options) (host : TaskHost) (root : Text) : Config where
  networkNamespace := true
  mountNamespace := true
  rootfs := root
  readOnlyRoot := false
  cleanEnvironment := true
  traceEvents := true
  cgroup := { path := taskCgroup options host }
  cpuSeconds := options.timeout
  maxProcesses := 64
  maxFileBytes := 64 * 1024 * 1024
  seccompAllowlist := defaultPackageSyscalls

/-- The entries for what the program did. -/
def captureEntries (task : Task) (captured : Captured) : Observed where
  events :=
    ["\x7b\"schema_version\":1,\"type\":\"".toList ++
      (if task.script then "maintainer_script".toList else "executable_smoke".toList) ++
      "\",\"path\":\"".toList ++ escape task.path ++ "\",\"status\":".toList ++
      Text.ofInt captured.status ++ ",\"timed_out\":".toList ++ Text.ofBool captured.timedOut ++
      ",\"stdout\":\"".toList ++ escape captured.stdoutData ++ "\",\"stderr\":\"".toList ++
      escape captured.stderrData ++ "\"\x7d".toList]
  processes :=
    ["\x7b\"path\":\"".toList ++ escape task.path ++ "\",\"status\":".toList ++
      Text.ofInt captured.status ++ "\x7d".toList]
  network := ["\x7b\"path\":\"".toList ++ escape task.path ++ "\",\"isolated\":true\x7d".toList]

/-- The lambda `flag`: a risk factor for a text in the output. -/
def flag (combined text factor : Text) : List Text :=
  if Search.occurs text combined then [factor] else []

/-- The entries that judge what the program did. -/
def judgeEntries (task : Task) (captured : Captured) : Observed where
  smoke :=
    [task.path ++ ':' :: (if captured.status = 0 then "passed".toList else "failed".toList) ++
      ":status=".toList ++ Text.ofInt captured.status ++
      if captured.timedOut then ":timeout".toList else []]
  coverage :=
    [task.path ++ ':' :: if captured.timedOut then "timed-out".toList else "executed".toList]
  riskFactors :=
    let combined := captured.stdoutData ++ '\n' :: captured.stderrData
    flag combined "systemctl".toList "service activation attempt".toList ++
      flag combined "/etc/systemd".toList "service persistence attempt".toList ++
      flag combined "/etc/cron".toList "persistence attempt".toList ++
      flag combined "setuid".toList "privilege change attempt".toList ++
      flag combined "setcap".toList "capability change attempt".toList

/-- `run_one`, started with an empty result. -/
def runOne (options : Options) (host : TaskHost) (task : Task) : Observed :=
  if LexicalPath.isAbsolute task.path ∨ Search.occurs "..".toList task.path then {}
  else if !host.staged then
    { events := ["\x7b\"schema_version\":1,\"type\":\"observation_skipped\",\"path\":\"".toList ++
        escape task.path ++ "\",\"reason\":\"not staged\"\x7d".toList]
      coverage := [task.path ++ ":skipped:not-staged".toList] }
  else
    match host.session with
    | none =>
      { riskFactors := ["per-observation rootfs snapshot unavailable".toList]
        events := ["\x7b\"schema_version\":1,\"type\":\"observation_rejected\",\"reason\":\"snapshot\"\x7d".toList]
        coverage := [task.path ++ ":rejected:snapshot".toList] }
    | some root =>
      if !host.snapshotHasFile then
        { riskFactors := ["per-observation snapshot missing staged file".toList]
          coverage := [task.path ++ ":rejected:missing-file".toList] }
      else if options.cgroupRoot ≠ [] ∧ !host.cgroupCreated then
        { riskFactors := ["cgroup task creation failed".toList] }
      else
        let config := taskConfig options host root
        let sandboxPath := '/' :: task.path
        let command :=
          if task.script then ["/bin/sh".toList, sandboxPath, "install".toList]
          else [sandboxPath]
        let captured := host.capture command config
        let attested : Observed :=
          { events := ["\x7b\"schema_version\":1,\"type\":\"attestation\",\"manifest\":".toList ++
              attestation config ++ "\x7d".toList] }
        attested.append (captureEntries task captured) |>.append (traceEvidence captured.stderrData)
          |>.append (judgeEntries task captured)

/-! ## All tasks -/

/-- The tasks of a package: scripts, then hooks, then executables. -/
def tasksOf (scripts hooks executables : List Text) : List Task :=
  (scripts.map fun path => { path := path, script := true }) ++
    (hooks.map fun path => { path := path, script := true }) ++
    executables.map fun path => { path := path, script := false }

/-- What `observe` puts into its result before it starts the workers. -/
def observeHeader (options : Options) (tasks : List Task) : Observed where
  events :=
    ["\x7b\"schema_version\":1,\"type\":\"observation_start\",\"network\":\"".toList ++
        (if options.network then "requested".toList else "isolated".toList) ++
        "\"\x7d".toList,
      "\x7b\"schema_version\":1,\"type\":\"sandbox_policy\",\"no_new_privileges\":true,\"capabilities\":\"dropped\"\x7d".toList]
  smoke := if tasks = [] then ["*:skipped:no executables discovered".toList] else []

/-- How a call of `run_one` ends: normally, with a `std::exception` and its text, or with
something else thrown. -/
inductive Ending where
  | returned
  | threw (what : Text)
  | threwOther
  deriving DecidableEq, Repr

/-- A result that has been written up to some point of each of its fields. -/
structure Observed.Begins (r r' : Observed) : Prop where
  events : r.events <+: r'.events
  processes : r.processes <+: r'.processes
  network : r.network <+: r'.network
  smoke : r.smoke <+: r'.smoke
  riskFactors : r.riskFactors <+: r'.riskFactors
  coverage : r.coverage <+: r'.coverage

theorem Observed.Begins.refl (r : Observed) : r.Begins r :=
  ⟨List.prefix_rfl, List.prefix_rfl, List.prefix_rfl, List.prefix_rfl, List.prefix_rfl,
    List.prefix_rfl⟩

/-- The options of a task for which this many seconds are left. -/
def Options.within (options : Options) (seconds : Nat) : Options :=
  { options with timeout := min options.timeout seconds }

/-- How the call of `run_one` for a task goes. A call that throws leaves what it has
written before that. -/
structure Call (options : Options) (task : Task) where
  host : TaskHost
  /-- The whole seconds left until the deadline, and one more. -/
  seconds : Nat
  ending : Ending := .returned
  /-- What is thrown is thrown before the line that writes the entry for the coverage. -/
  early : Bool := false
  left : Observed
  begins : left.Begins (runOne (options.within seconds) host task)
  whole : ending = .returned → left = runOne (options.within seconds) host task
  covered : ending ≠ .returned → left.coverage =
    if early then [] else (runOne (options.within seconds) host task).coverage

/-- What a worker leaves in the slot of a task whose call of `run_one` has left `result`
there. -/
def afterEnding (result : Observed) : Ending → Observed
  | .returned => result
  | .threw what =>
    result.append
      { riskFactors := ["observation worker failed: ".toList ++ what]
        events := ["\x7b\"schema_version\":1,\"type\":\"worker_failure\"\x7d".toList] }
  | .threwOther =>
    result.append
      { riskFactors := ["observation worker failed: unknown error".toList]
        events := ["\x7b\"schema_version\":1,\"type\":\"worker_failure\"\x7d".toList] }

/-- What a worker leaves in the slot of a task it takes after the deadline. -/
def skippedEntries (task : Task) : Observed where
  smoke := [task.path ++ ":skipped:global-timeout".toList]
  riskFactors := ["global observation budget exhausted".toList]
  coverage := [task.path ++ ":skipped:global-timeout".toList]

/-- The slots merged into the result, in the order of the tasks. -/
def mergeAll (result : Observed) (slots : List Observed) : Observed :=
  slots.foldl Observed.append result

end ExeCell.Package
