import ExeCell.Lib.Gate
import ExeCell.Package.Confidence
import ExeCell.Package.Network
import ExeCell.Package.Rootfs
import ExeCell.Package.ScanRisk

/-!
# Scanning a package

`package::scan` from its first check to its verdict. The stages that have modules of their
own (the inspection, the session, the observation, the assessment) are put together here,
with the early returns between them. Next to its result a scan has the list of the steps it
took outside the program, each with its answer.

`scan_closed`: neither `pacman` nor a file of the package is run unless the steps before it
have vetted the package, and a scan whose steps do not vet it is not `ok`.
-/

namespace ExeCell.Package

open ArchiveAdapter
open Sandbox (Config Captured defaultPackageSyscalls)
open Network (validMirror)

/-- `package::Options`, as far as `scan` reads it. -/
structure PackageOptions extends ScanOptions where
  privileged : Bool := false
  mirrors : List Text := []
  rootfs : Text := []
  sessionRoot : Text := "/tmp/execell-package".toList
  deriving DecidableEq, Repr

/-- `package::Result`. -/
structure Result where
  ok : Bool := false
  error : Text := []
  metadata : Metadata
  created : List Text := []
  modified : List Text := []
  deleted : List Text := []
  modeChanged : List Text := []
  ownershipChanged : List Text := []
  hashChanged : List Text := []
  riskFactors : List Text := []
  riskScore : Int := 0
  verdict : Text := "reject".toList
  riskLevel : Text := "none".toList
  riskAction : Text := "reject".toList
  session : Text := []
  installed : Bool := false
  baseline : Bool := false
  smokeScans : List Text := []
  processEvents : List Text := []
  networkEvents : List Text := []
  events : List Text := []
  coverage : List Text := []
  coverageConfidence : Nat := 0
  deriving DecidableEq, Repr

/-- What a scan does outside the program, with the answer it gets. -/
inductive ScanStep where
  /-- A query of `inspect`. -/
  | inspected (step : InspectStep)
  | checkMirror (mirror : Text) (valid : Bool)
  | createSession (rootfs workspace : Text) (created : Except Text Rootfs.Session)
  /-- `pacman` is run in the sandbox. -/
  | install (command : List Text) (config : Config)
  /-- `observe` is called for these files of the package. -/
  | observe (root : Text) (tasks : List Task)

/-- The step runs something of the package. -/
def ScanStep.Executes : ScanStep → Prop
  | .install _ _ => True
  | .observe _ _ => True
  | _ => False

instance (step : ScanStep) : Decidable step.Executes :=
  match step with
  | .install _ _ | .observe _ _ => isTrue trivial
  | .inspected _ | .checkMirror _ _ | .createSession _ _ _ => isFalse id

abbrev ScanRun := Gate.Run ScanStep Result

/-! ## Directories -/

/-- How `create_directory` ends. -/
inductive Made where
  | created
  /-- It answers false without an error, or with `file_exists`. -/
  | exists
  | failed
  deriving DecidableEq, Repr

/-- The lambda `unique_directory`, from its given attempt on; the candidate of an attempt
carries the time. -/
def uniqueFrom (candidate : Nat → Text) (make : Text → Made) : Nat → Nat → Text
  | 0, _ => []
  | left + 1, attempt =>
    match make (candidate attempt) with
    | .created => candidate attempt
    | .exists => uniqueFrom candidate make left (attempt + 1)
    | .failed => []

/-- The lambda `unique_directory`; the answer is empty when no directory could be made. -/
def uniqueDirectory (parent name : Text) (pid : Nat) (stamp : Nat → Nat) (make : Text → Made) :
    Text :=
  let candidate (attempt : Nat) : Text := LexicalPath.append parent
    (name ++ Text.ofNat pid ++ '-' :: Text.ofNat (stamp attempt) ++ '-' :: Text.ofNat attempt)
  uniqueFrom candidate make 1000 0

/-! ## The contents of the root -/

structure FileState where
  size : Nat := 0
  mode : Nat := 0
  uid : Nat := 0
  gid : Nat := 0
  hash : Text := []
  deriving DecidableEq, Repr

/-- What `snapshot` returns, in the order of the paths. -/
abbrev Snapshot := List (Text × FileState)

def Snapshot.find (snapshot : Snapshot) (path : Text) : Option FileState := snapshot.lookup path

/-- The paths whose old and new state differ in this way. -/
def changedPaths (before after : Snapshot) (differs : FileState → FileState → Bool) : List Text :=
  (after.filter fun entry => (before.find entry.1).any fun old => differs old entry.2).map
    Prod.fst

/-- The paths of the first that the second does not have. -/
def missingPaths (first second : Snapshot) : List Text :=
  (first.filter fun entry => (second.find entry.1).isNone).map Prod.fst

/-- The two loops over the snapshots before and after the installation. -/
def Result.compare (result : Result) (before after : Snapshot) : Result :=
  { result with
    created := missingPaths after before
    modified := changedPaths before after fun old new => old.size ≠ new.size
    modeChanged := changedPaths before after fun old new => old.mode ≠ new.mode
    ownershipChanged :=
      changedPaths before after fun old new => old.uid ≠ new.uid || old.gid ≠ new.gid
    hashChanged := changedPaths before after fun old new => old.hash ≠ new.hash
    deleted := missingPaths before after }

/-! ## `scan` -/

/-- What the calls of `scan` answer; only those it really makes are looked at. A query that
may throw has no answer when it does. -/
structure ScanHost (options : PackageOptions) where
  package : PackageHost
  /-- `inspect` throws after this many of its queries. -/
  inspectThrows : Option Nat := none
  pid : Nat := 1
  /-- `temp_directory_path`, empty when it fails. -/
  temp : Text := "/tmp".toList
  sessionRootSymlink : Bool := false
  sessionRootExists : Bool := true
  /-- The error of `create_directories` for the session root. -/
  sessionRootError : Option Text := none
  /-- The clock at each attempt to make the directory of the session, and that of the root. -/
  sessionStamp : Nat → Nat := fun _ => 0
  rootStamp : Nat → Nat := fun _ => 0
  make : Text → Made := fun _ => .created
  rootfs : Rootfs.Host := {}
  before : Option Snapshot := some []
  pacman : Option Bool := some false
  /-- `input.eof()` behind the reading of the package. -/
  packageRead : Bool := true
  /-- `write_root_file` for the package. -/
  packageStaged : Bool := true
  after : Option Snapshot := some []
  /-- A query throws while the files are staged. -/
  stageThrows : Bool := false
  /-- The turns of the threads of `observe`, and its calls of `run_one`. -/
  turns : List Turn
  calls : Nat → (task : Task) → Call (observationOptions options.toScanOptions) task
  root : RootHost := { present := fun _ => false, setuid := false }
  /-- A query of `observe` throws behind its threads. -/
  observeThrows : Bool := false
  store : StoreOutcome := .unavailable
  artifactsWritten : Bool := true

/-- The kind of rejection that the error of `inspect` asks for. -/
def rejectionName (error : Text) : Text :=
  if Search.occurs "signature".toList error then "signature".toList
  else if Search.occurs "architecture".toList error then "architecture".toList
  else if Search.occurs "unsafe".toList error || Search.occurs "escape".toList error then
    "escape".toList
  else "package_validation".toList

/-- The result of a package that `inspect` does not accept. -/
def rejectInspected (inspected : Inspected) : Result :=
  let assessment :=
    (({} : Risk.Engine).reject (rejectionName inspected.error) inspected.error).assess
  { error := inspected.error
    metadata := inspected.metadata
    riskScore := assessment.score
    riskLevel := assessment.level.text
    riskAction := assessment.action.text }

/-- An early return with an error. -/
def Result.fail (result : Result) (error : Text) : Result :=
  { result with ok := false, error := error }

/-- An early return with an error that is critical. -/
def Result.refuse (result : Result) (error : Text) : Result :=
  { result.fail error with riskLevel := "critical".toList, riskAction := "reject".toList }

/-- The steps of the loop over the mirrors, which ends at the first that is not valid. -/
def mirrorSteps : List Text → List ScanStep
  | [] => []
  | mirror :: mirrors =>
    .checkMirror mirror (validMirror mirror) ::
      if validMirror mirror then mirrorSteps mirrors else []

/-- The sandbox in which `pacman` is run. -/
def installConfig (options : PackageOptions) (root : Text) : Config where
  rootfs := root
  readOnlyRoot := false
  cleanEnvironment := true
  userNamespace := true
  mountNamespace := true
  networkNamespace := true
  cpuSeconds := options.timeout
  maxProcesses := 128
  maxFileBytes := 128 * 1024 * 1024
  seccompAllowlist := defaultPackageSyscalls
  cgroup := { path := options.cgroupRoot }

def installCommand (package : Text) : List Text :=
  ["/usr/bin/pacman".toList, "-U".toList, "--noconfirm".toList, "--root".toList, "/".toList,
    "--dbpath".toList, "/var/lib/pacman".toList,
    "/var/cache/pacman/pkg/".toList ++ LexicalPath.filename package]

/-- `json_escape`. -/
def jsonEscape (value : Text) : Text :=
  value.flatMap fun c =>
    if c = '"' ∨ c = '\\' then ['\\', c]
    else if c = '\n' then ['\\', 'n']
    else if c = '\r' then ['\\', 'r']
    else if c = '\t' then ['\\', 't']
    else [c]

/-- `json_array`. -/
def jsonArray (values : List Text) : Text :=
  '[' :: List.intercalate [','] (values.map fun value => '"' :: jsonEscape value ++ ['"']) ++ [']']

variable {options : PackageOptions}

/-- `scan` behind the workers of `observe`, which have left this result. -/
def concludeScan (host : ScanHost options) (result : Result) (merged : Observed) : Result :=
  let observation := observed host.root merged
  let scored := scanRisk
    { installed := result.installed
      scripts := result.metadata.scripts
      hooks := result.metadata.hooks
      created := result.created
      modeChanged := result.modeChanged
      ownershipChanged := result.ownershipChanged
      hashChanged := result.hashChanged
      networkEvents := observation.network
      network := options.network
      observedFactors := observation.riskFactors
      riskFactors := result.riskFactors ++ observation.riskFactors } host.store
  { result with
    -- the result of `inspect` is `ok`, and the assessment can only take that back
    ok := result.ok && scored.ok
    smokeScans := observation.smoke
    processEvents := observation.processes
    networkEvents := observation.network
    coverage := observation.coverage
    coverageConfidence := scanConfidence result.metadata host.root merged
    riskFactors := scored.riskFactors
    riskScore := scored.riskScore
    riskLevel := scored.riskLevel
    riskAction := scored.riskAction
    verdict := scored.verdict
    baseline := scored.baseline
    events := result.events ++ observation.events ++
      ["\x7b\"schema_version\":1,\"type\":\"network_policy\",\"mode\":\"".toList ++ options.network ++
          "\",\"allowlist\":".toList ++ jsonArray options.mirrors ++ "\x7d".toList,
        "\x7b\"schema_version\":1,\"type\":\"scan_complete\"\x7d".toList] ++
      if host.artifactsWritten then []
      else ["\x7b\"schema_version\":1,\"type\":\"artifact_error\"\x7d".toList] }

/-- `scan` from the second snapshot of the root on. -/
def observeStage (host : ScanHost options) (root : Text) (before : Snapshot) (result : Result) :
    ScanRun :=
  match host.after with
  | none => { result := none }
  | some after =>
    if host.stageThrows then { result := none }
    else
      let compared := result.compare before after
      let result := { compared with metadata := discover host.package.archive compared.metadata }
      let job := scanJob options.toScanOptions result.metadata host.calls
      let steps := [.observe root job.tasks]
      match outcome job host.turns with
      | none => { steps := steps, result := none }
      | some (_, merged) =>
        if host.observeThrows then { steps := steps, result := none }
        else { steps := steps, result := some (concludeScan host result merged) }

/-- `scan` from the first snapshot of the isolated root on. -/
def installStage (host : ScanHost options) (package : Text) (session : Rootfs.Session)
    (result : Result) : ScanRun :=
  let root := session.writable
  let result := { result with events := [session.event] }
  match host.before, host.pacman with
  | none, _ => { result := none }
  | some _, none => { result := none }
  | some before, some false =>
    observeStage host root before
      { result with
        riskFactors :=
          ["rootless pacman runtime unavailable; install behavior not observed".toList] }
  | some before, some true =>
    if !host.packageRead then { result := some (result.fail "package staging failed".toList) }
    else if !host.packageStaged then
      { result := some (result.fail "package staging write failed".toList) }
    else
      let command := installCommand package
      let config := installConfig options root
      let installed := host.package.capture command config
      let run : ScanRun :=
        if installed.timedOut then
          { result := some (result.fail "pacman install timed out".toList) }
        else if installed.status ≠ 0 then
          { result := some (result.fail "pacman install failed".toList) }
        else observeStage host root before { result with installed := true }
      run.after [.install command config]

/-- `scan` from the directories to the check of the session. -/
def sessionStage (host : ScanHost options) (package : Text) (result : Result) : ScanRun :=
  if host.sessionRootSymlink then
    { result := some (result.fail "session root must not be symlink".toList) }
  else
    let error := if host.sessionRootExists then none else host.sessionRootError
    match error with
    | some message =>
      { result := some (result.fail ("rootfs creation failed: ".toList ++ message)) }
    | none =>
      let artifact := uniqueDirectory options.sessionRoot "session-".toList host.pid
        host.sessionStamp host.make
      let result := { result with session := artifact }
      let workspace := uniqueDirectory host.temp "execell-rootfs-".toList host.pid host.rootStamp
        host.make
      if artifact = [] then
        { result := some (result.fail "unique session directory creation failed".toList) }
      else if workspace = [] then
        { result := some (result.fail "rootfs workspace creation failed".toList) }
      else
        match Rootfs.Session.create host.rootfs options.rootfs workspace with
        | none => { result := none }
        | some (.error message) =>
          { steps := [.createSession options.rootfs workspace (.error message)]
            result := some (result.fail message) }
        | some (.ok session) =>
          let run : ScanRun :=
            if !session.isolated then
              { result := some
                  (result.refuse "scan rejected: Btrfs rootfs isolation unavailable".toList) }
            else installStage host package session result
          run.after [.createSession options.rootfs workspace (.ok session)]

/-- `scan` behind `inspect`. -/
def mirrorStage (host : ScanHost options) (package : Text) (result : Result) : ScanRun :=
  if options.network = "mirror".toList ∧ options.mirrors = [] then
    { result := some (result.refuse
        "mirror network policy requires at least one --mirror allowlist entry".toList) }
  else
    let run : ScanRun :=
      match options.mirrors.find? fun mirror => !validMirror mirror with
      | some mirror =>
        { result := some (result.refuse ("invalid mirror allowlist entry: ".toList ++ mirror)) }
      | none => sessionStage host package result
    run.after (mirrorSteps options.mirrors)

def scan (host : ScanHost options) (package : Text) : ScanRun :=
  if options.privileged then
    { result := some
        { error := "privileged package scanning is disabled: rootless mode required".toList
          metadata := { package := [] }
          riskLevel := "critical".toList
          riskAction := "reject".toList } }
  else
    let (queries, inspected) := inspectRun host.package package options.toScanOptions
    match host.inspectThrows with
    | some count => { steps := (queries.take count).map .inspected, result := none }
    | none =>
      let run : ScanRun :=
        if !inspected.ok then { result := some (rejectInspected inspected) }
        else mirrorStage host package { ok := true, metadata := inspected.metadata }
      run.after (queries.map .inspected)

/-! ## The gate -/

section Closed

variable {host : ScanHost options} {package : Text} {result : Result}
  {isOpen : List ScanStep → Prop}

theorem not_executes_inspected {queries : List InspectStep} :
    ∀ step ∈ queries.map ScanStep.inspected, ¬ step.Executes := by
  intro step hstep
  obtain ⟨query, _, rfl⟩ := List.mem_map.mp hstep
  exact id

theorem not_executes_mirrorSteps {mirrors : List Text} {step : ScanStep}
    (h : step ∈ mirrorSteps mirrors) : ¬ step.Executes := by
  induction mirrors with
  | nil => cases h
  | cons mirror mirrors ih =>
    rw [mirrorSteps] at h
    rcases List.mem_cons.mp h with rfl | hlater
    · exact id
    · split at hlater
      · exact ih hlater
      · cases hlater

end Closed

/-- A host on which every step succeeds. -/
def vettedHost : ScanHost {} where
  package := packageHost []
  turns := []
  calls _ task := Call.returning _ {} task

example : (∃ step ∈ (scan vettedHost packagePath).steps, step.Executes) ∧
    ∃ result ∈ (scan vettedHost packagePath).result, result.ok = true := by
  decide +kernel

end ExeCell.Package
