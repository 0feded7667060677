import Mathlib.Data.Char
import ExeCell.Lib.OrderedMap
import ExeCell.Package.Build
import ExeCell.Package.Fingerprint
import ExeCell.Package.Rootfs

/-!
# Building a package

`build::run` behind the check of the sources: the session, the two phases of `makepkg`, the
loop that copies the packages out of the build directory, and the rebuilds. The iterator,
the type test and the copy of the loop share one `error_code`; an error ends the loop, and
nothing looks at it afterwards.

`handsOver_iff` says when a build that is `ok` has handed over every package.
-/

namespace ExeCell.Package.Build

open Aur (Pkgbuild Manifest Source)
open OrderedMap (assign assignAll)
open Rootfs (Session)
open Sandbox (Config Captured defaultPackageSyscalls)

/-- `build::Options`. -/
structure RunOptions extends BuildOptions where
  rootfs : Text := []
  workspace : Text := "/tmp/execell-build".toList
  artifactRoot : Text := "/tmp/execell-build-artifacts".toList
  /-- In seconds. -/
  timeout : Nat := 300
  cgroupRoot : Text := []
  repetitions : Nat := 1
  deriving DecidableEq, Repr

/-- `build::Result`. -/
structure RunResult extends BuildResult where
  timedOut : Bool := false
  status : Int := -1
  events : List Text := []
  artifacts : List Text := []
  reproducible : Bool := true
  deriving DecidableEq, Repr

/-- An entry of the build directory behind `makepkg`, and what the calls on it report. -/
structure Built where
  name : Text
  /-- It is a regular file, or a link to one. -/
  regular : Bool := true
  /-- What is read from it; there is nothing when it cannot be opened. -/
  content : Option Text := some []
  /-- The errors of `is_regular_file` and of `copy_file`. -/
  statusError : Option Text := none
  copyError : Option Text := none
  /-- The increment of the iterator behind the entry throws. -/
  incrementThrows : Bool := false
  deriving DecidableEq, Repr

/-- What the calls of `run` answer; only those it really makes are looked at. -/
structure BuildHost where
  /-- The error of `create_directories` for the workspace. -/
  workspaceError : Option Text := none
  rootfs : Rootfs.Host := {}
  /-- The error of `create_directories` for the build directory. -/
  directoryError : Option Text := none
  /-- The copy of the PKGBUILD into the build directory. -/
  staged : Bool := true
  /-- `run_captured`, by the number of the call. -/
  capture : Nat → List Text → Config → Captured
  /-- The error of `create_directories` for the artifacts. -/
  artifactRootError : Option Text := none
  iteratorError : Option Text := none
  /-- The build directory, in the order in which it is read. -/
  built : List Built
  distinct : (built.map Built.name).Nodup
  /-- What is read from a file behind a rebuild. -/
  rebuilt : Nat → Text → Option Text := fun _ _ => none

/-! ## Up to the end of `makepkg` -/

/-- `json_escape` in `build.cpp`. -/
def jsonEscape (value : Text) : Text :=
  value.flatMap fun c => if c = '"' ∨ c = '\\' then ['\\', c] else [c]

def sourceEvent (source : Source) : Text :=
  "\x7b\"type\":\"source\",\"url\":\"".toList ++ jsonEscape source.value ++
    "\",\"sha256\":\"".toList ++ jsonEscape source.hash ++ "\",\"host\":\"".toList ++
    jsonEscape (hostFromSource source.value) ++ "\"\x7d".toList

/-- The sandbox of `makepkg`. -/
def makepkgConfig (options : RunOptions) (session : Session) : Config where
  rootfs := session.writable
  workingDirectory := "/build".toList
  mountNamespace := true
  userNamespace := true
  networkNamespace := true
  readOnlyRoot := false
  cleanEnvironment := true
  dropToUnprivilegedUser := true
  cpuSeconds := options.timeout
  addressSpaceBytes := 2 * 1024 * 1024 * 1024
  maxProcesses := 256
  maxFileBytes := 512 * 1024 * 1024
  seccompAllowlist := defaultPackageSyscalls
  cgroup := { path := options.cgroupRoot }

def sourceCommand : List Text :=
  ["/usr/bin/makepkg".toList, "--noconfirm".toList, "--nodeps".toList, "--nobuild".toList]

def buildCommand : List Text :=
  ["/usr/bin/makepkg".toList, "--noconfirm".toList, "--nodeps".toList, "--noextract".toList,
    "--noprepare".toList]

/-- An early return with an error. -/
def RunResult.fail (result : RunResult) (error : Text) : RunResult := { result with error := error }

/-- The end of a phase: its status, and the event about it. -/
def RunResult.phase (result : RunResult) (captured : Captured) (timeout complete : String) :
    RunResult :=
  { result with
    status := captured.status
    timedOut := captured.timedOut
    events := result.events ++ [if captured.timedOut then timeout.toList else complete.toList] }

/-- `run` from the sandbox to the directory of the artifacts: the result it returns with, or
that with which it goes on. -/
def runPhases (host : BuildHost) (options : RunOptions) (manifest : Manifest) (config : Config)
    (result : RunResult) : Except RunResult RunResult :=
  let result := { result with
    events := ["source_download_start".toList,
      if options.network then "network_requested_isolated".toList else "network_disabled".toList] ++
        manifest.sources.map sourceEvent }
  let source := host.capture 0 sourceCommand config
  let result := result.phase source "source_download_timeout" "source_download_complete"
  if source.timedOut then .error (result.fail "AUR source phase timed out".toList)
  else if source.status ≠ 0 then .error (result.fail "AUR source phase failed".toList)
  else
    let result := { result with events := result.events ++ ["build_start".toList] }
    let build := host.capture 1 buildCommand config
    let result := result.phase build "build_timeout" "build_complete"
    if build.timedOut then .error (result.fail "AUR build timed out".toList)
    else if build.status ≠ 0 then .error (result.fail "makepkg build phase failed".toList)
    else
      match host.artifactRootError with
      | some message =>
        .error (result.fail ("artifact directory creation failed: ".toList ++ message))
      | none => .ok result

/-- `run` up to the loop over the build directory. There is no answer when a query throws. -/
def prepare (host : BuildHost) (file : Pkgbuild) (options : RunOptions) :
    Option (Except RunResult (RunResult × Config)) :=
  match runChecks file options.toBuildOptions with
  | .error result => some (.error { toBuildResult := result })
  | .ok (manifest, checked) =>
    let result : RunResult := { toBuildResult := checked }
    match host.workspaceError with
    | some message =>
      some (.error (result.fail ("build workspace creation failed: ".toList ++ message)))
    | none =>
      match Session.create host.rootfs options.rootfs options.workspace with
      | none => none
      | some (.error message) => some (.error (result.fail message))
      | some (.ok session) =>
        if !session.isolated then
          some (.error
            (result.fail "build rejected: Btrfs rootfs isolation unavailable".toList))
        else
          match host.directoryError with
          | some message =>
            some (.error (result.fail ("build directory creation failed: ".toList ++ message)))
          | none =>
            if !host.staged then some (.error (result.fail "PKGBUILD staging failed".toList))
            else
              let config := makepkgConfig options session
              match runPhases host options manifest config result with
              | .error result => some (.error result)
              | .ok result => some (.ok (result, config))

/-! ## The packages -/

/-- What the loop takes: a regular file with `.pkg.tar.` in its name. -/
def Built.isPackage (entry : Built) : Bool :=
  entry.regular && Search.occurs ".pkg.tar.".toList entry.name

/-- `first_hashes` and the artifacts; next to them the files that have been copied. -/
structure Collected where
  firstHashes : List (Text × Text) := []
  artifacts : List Text := []
  copied : List Text := []
  deriving DecidableEq, Repr

/-- One turn of the loop over the build directory, with the `error_code` behind it. -/
def Collected.visit (root : Text) (collected : Collected) (entry : Built) :
    Collected × Option Text :=
  match entry.statusError with
  | some message => (collected, some message)
  | none =>
    if !entry.isPackage then (collected, none)
    else
      let collected := { collected with
        firstHashes := assign entry.name (fileFingerprint entry.content) collected.firstHashes }
      match entry.copyError with
      | some message => (collected, some message)
      | none =>
        ({ collected with
            artifacts := collected.artifacts ++ [LexicalPath.append root entry.name]
            copied := collected.copied ++ [entry.name] }, none)

/-- The loop over the build directory; there is no answer when it throws. An error ends it with
the next turn, if there is one. -/
def collectLoop (root : Text) : List Built → Collected → Option Collected
  | [], collected => some collected
  | entry :: entries, collected =>
    let (collected, error) := collected.visit root entry
    if entry.incrementThrows then none
    else if error.isSome then some collected
    else collectLoop root entries collected

/-- The entries that the iterator comes to. -/
def BuildHost.listed (host : BuildHost) : List Built :=
  match host.iteratorError with
  | some _ => []
  | none => host.built

/-! ## The rebuilds -/

/-- One of the first hashes, behind a rebuild. -/
def compareHash (host : BuildHost) (repetition : Nat) (result : RunResult) (hash : Text × Text) :
    RunResult :=
  if fileFingerprint (host.rebuilt repetition hash.1) ≠ hash.2 then
    { result with
      reproducible := false
      findings := result.findings ++ ["non-deterministic artifact: ".toList ++ hash.1] }
  else result

/-- The loop over the first hashes. -/
def compareHashes (host : BuildHost) (repetition : Nat) (result : RunResult)
    (hashes : List (Text × Text)) : RunResult :=
  hashes.foldl (compareHash host repetition) result

/-- The loop over the repetitions. -/
def rebuildLoop (host : BuildHost) (config : Config) (hashes : List (Text × Text)) :
    List Nat → RunResult → RunResult
  | [], result => result
  | repetition :: repetitions, result =>
    let rebuild := host.capture (repetition + 1) buildCommand config
    if rebuild.timedOut ∨ rebuild.status ≠ 0 then
      { result with
        reproducible := false
        findings := result.findings ++ ["repeat build failed".toList] }
    else rebuildLoop host config hashes repetitions (compareHashes host repetition result hashes)

/-- The repetitions behind the first build. -/
def RunOptions.rebuilds (options : RunOptions) : List Nat := List.range' 1 (options.repetitions - 1)

/-- The end of `run`. -/
def RunResult.conclude (result : RunResult) : RunResult :=
  { result with
    events :=
      if result.reproducible then result.events
      else result.events ++ ["reproducibility_mismatch".toList]
    ok := !result.artifacts.isEmpty && result.reproducible
    error :=
      if result.artifacts.isEmpty then "makepkg produced no package artifact".toList
      else if !result.reproducible then "reproducibility mismatch".toList
      else result.error }

/-- What `run` returns, and the files it has copied by then. -/
structure Outcome where
  result : RunResult
  copied : List Text := []
  deriving DecidableEq, Repr

/-- `run`. There is no answer when it throws. -/
def run (host : BuildHost) (file : Pkgbuild) (options : RunOptions) : Option Outcome :=
  match prepare host file options with
  | none => none
  | some (.error result) => some { result := result }
  | some (.ok (result, config)) =>
    match collectLoop options.artifactRoot host.listed {} with
    | none => none
    | some collected =>
      let result := { result with artifacts := collected.artifacts }
      let result := rebuildLoop host config collected.firstHashes options.rebuilds result
      some { result := result.conclude, copied := collected.copied }

/-! ## What a successful build has handed over -/

/-- Both files can be read, and have the same fingerprint. -/
def SameFile (first second : Option Text) : Prop :=
  ∃ content content', first = some content ∧ second = some content' ∧
    fingerprint content = fingerprint content'

/-- A build that is `ok` has copied and listed every package in the build directory, and every
rebuild has made each of them anew with the same fingerprint. -/
def HandsOver (host : BuildHost) (options : RunOptions) (outcome : Outcome) : Prop :=
  outcome.result.ok = true → ∀ entry ∈ host.built, entry.isPackage = true →
    entry.name ∈ outcome.copied ∧
    LexicalPath.append options.artifactRoot entry.name ∈ outcome.result.artifacts ∧
    ∀ repetition ∈ options.rebuilds, SameFile entry.content (host.rebuilt repetition entry.name)

/-- A turn of the loop for this entry leaves an error. -/
def Built.fails (entry : Built) : Bool :=
  entry.statusError.isSome || entry.isPackage && entry.copyError.isSome

/-- The packages in front of the first entry that leaves an error. -/
def copiedOf (entries : List Built) : List Built :=
  (entries.takeWhile (!·.fails)).filter Built.isPackage

/-- The packages that have come to their copy: those in front of the first error, and the one
whose copy it is. -/
def hashedOf : List Built → List Built
  | [] => []
  | entry :: entries =>
    if entry.statusError.isSome then []
    else if !entry.isPackage then hashedOf entries
    else if entry.copyError.isSome then [entry]
    else entry :: hashedOf entries

/-- Behind this rebuild, which has succeeded, the files with these names have the old
fingerprints. -/
def BuildHost.Repeats (host : BuildHost) (config : Config) (entries : List Built)
    (repetition : Nat) : Prop :=
  let rebuild := host.capture (repetition + 1) buildCommand config
  ¬ (rebuild.timedOut = true ∨ rebuild.status ≠ 0) ∧
    ∀ entry ∈ entries,
      fileFingerprint (host.rebuilt repetition entry.name) = fileFingerprint entry.content

/-! ## Early returns -/

section Early

variable {host : BuildHost} {file : Pkgbuild} {options : RunOptions} {manifest : Manifest}
  {config : Config} {result final : RunResult}

/-- The check of the sources leaves no result that is `ok`. -/
theorem not_ok_of_runChecks_error {checked : BuildResult}
    (h : runChecks file options.toBuildOptions = .error checked) : checked.ok = false := by
  rw [runChecks] at h
  split at h
  · obtain rfl := Except.error.inj h
    rfl
  · dsimp only at h
    split at h
    · obtain rfl := Except.error.inj h
      rfl
    · cases h

theorem not_ok_of_runChecks_ok {checked : BuildResult}
    (h : runChecks file options.toBuildOptions = .ok (manifest, checked)) : checked.ok = false := by
  rw [runChecks] at h
  split at h
  · cases h
  · dsimp only at h
    split at h
    · cases h
    · obtain ⟨-, rfl⟩ := Prod.mk.inj (Except.ok.inj h)
      rfl

theorem runPhases_error_ok (h : runPhases host options manifest config result = .error final)
    (hresult : result.ok = false) : final.ok = false := by
  rw [runPhases] at h
  dsimp only at h
  split at h
  · obtain rfl := Except.error.inj h
    exact hresult
  split at h
  · obtain rfl := Except.error.inj h
    exact hresult
  split at h
  · obtain rfl := Except.error.inj h
    exact hresult
  split at h
  · obtain rfl := Except.error.inj h
    exact hresult
  split at h
  · obtain rfl := Except.error.inj h
    exact hresult
  · cases h

theorem runPhases_ok_reproducible (h : runPhases host options manifest config result = .ok final) :
    final.reproducible = result.reproducible := by
  rw [runPhases] at h
  dsimp only at h
  split at h
  · cases h
  split at h
  · cases h
  split at h
  · cases h
  split at h
  · cases h
  split at h
  · cases h
  · obtain rfl := Except.ok.inj h
    rfl

/-- What `prepare` returns early with is not `ok`, and what it goes on with is reproducible so
far. -/
theorem prepare_spec {prepared : Except RunResult (RunResult × Config)}
    (h : prepare host file options = some prepared) :
    match prepared with
    | .error result => result.ok = false
    | .ok (result, _) => result.reproducible = true := by
  rw [prepare] at h
  split at h
  · rename_i hchecks
    obtain rfl := Option.some.inj h
    exact not_ok_of_runChecks_error hchecks
  rename_i hchecks
  have hchecked := not_ok_of_runChecks_ok hchecks
  dsimp only at h
  split at h
  · obtain rfl := Option.some.inj h
    exact hchecked
  split at h
  · cases h
  · obtain rfl := Option.some.inj h
    exact hchecked
  split at h
  · obtain rfl := Option.some.inj h
    exact hchecked
  split at h
  · obtain rfl := Option.some.inj h
    exact hchecked
  split at h
  · obtain rfl := Option.some.inj h
    exact hchecked
  split at h
  · rename_i hphases
    obtain rfl := Option.some.inj h
    exact runPhases_error_ok hphases hchecked
  · rename_i hphases
    obtain rfl := Option.some.inj h
    exact runPhases_ok_reproducible hphases

end Early

/-! ## The loop over the build directory -/

section Collect

variable {root : Text} {collected final : Collected} {entries : List Built} {entry : Built}

theorem visit_error (root : Text) (collected : Collected) (entry : Built) :
    (collected.visit root entry).2.isSome = entry.fails := by
  rw [Collected.visit, Built.fails]
  cases hstatus : entry.statusError with
  | some message => rfl
  | none =>
    cases hpackage : entry.isPackage with
    | false => rfl
    | true =>
      cases hcopy : entry.copyError with
      | some message => rfl
      | none => rfl

/-- What the loop has copied, listed and hashed at its end. -/
theorem collectLoop_spec (h : collectLoop root entries collected = some final) :
    final.copied = collected.copied ++ (copiedOf entries).map Built.name ∧
      final.artifacts = collected.artifacts ++
        (copiedOf entries).map (fun entry => LexicalPath.append root entry.name) ∧
      final.firstHashes = assignAll collected.firstHashes
        ((hashedOf entries).map fun entry => (entry.name, fileFingerprint entry.content)) := by
  induction entries generalizing collected with
  | nil =>
    obtain rfl := Option.some.inj h
    simp [copiedOf, hashedOf, assignAll]
  | cons entry entries ih =>
    have herror := visit_error root collected entry
    rw [collectLoop] at h
    dsimp only at h
    split at h
    · cases h
    rw [herror, Built.fails] at h
    cases hstatus : entry.statusError with
    | some message =>
      rw [hstatus] at h
      obtain rfl := Option.some.inj h
      simp [copiedOf, hashedOf, assignAll, Collected.visit, Built.fails, hstatus]
    | none =>
      cases hpackage : entry.isPackage with
      | false =>
        rw [hstatus, hpackage] at h
        have hlater := ih h
        simpa [copiedOf, hashedOf, Collected.visit, Built.fails, hstatus, hpackage] using hlater
      | true =>
        cases hcopy : entry.copyError with
        | some message =>
          rw [hstatus, hpackage, hcopy] at h
          obtain rfl := Option.some.inj h
          simp [copiedOf, hashedOf, assignAll, Collected.visit, Built.fails, hstatus, hpackage,
            hcopy]
        | none =>
          rw [hstatus, hpackage, hcopy] at h
          obtain ⟨hcopied, hlisted, hhashes⟩ := ih h
          have hcopiedOf : copiedOf (entry :: entries) = entry :: copiedOf entries := by
            simp [copiedOf, Built.fails, hstatus, hpackage, hcopy]
          have hhashedOf : hashedOf (entry :: entries) = entry :: hashedOf entries := by
            simp [hashedOf, hstatus, hpackage, hcopy]
          rw [hcopied, hlisted, hhashes, hcopiedOf, hhashedOf]
          simp [Collected.visit, hstatus, hpackage, hcopy, assignAll]

theorem hashedOf_sublist (entries : List Built) : (hashedOf entries).Sublist entries := by
  induction entries with
  | nil => exact List.Sublist.refl []
  | cons entry entries ih =>
    rw [hashedOf]
    split
    · exact List.nil_sublist _
    split
    · exact ih.cons entry
    split
    · exact List.singleton_sublist.mpr List.mem_cons_self
    · exact ih.cons_cons entry

/-- What has been copied has been hashed before. -/
theorem mem_hashedOf_of_copied (h : entry ∈ copiedOf entries) : entry ∈ hashedOf entries := by
  induction entries with
  | nil => exact h
  | cons first entries ih =>
    rw [copiedOf] at h
    rw [hashedOf]
    by_cases hfails : first.fails = true
    · rw [List.takeWhile_cons_of_neg (by simp [hfails])] at h
      cases h
    · rw [List.takeWhile_cons_of_pos (by simpa using hfails)] at h
      rw [Built.fails, Bool.or_eq_true, not_or, Bool.and_eq_true, not_and] at hfails
      obtain ⟨hstatus, hcopy⟩ := hfails
      rw [if_neg hstatus]
      by_cases hpackage : first.isPackage = true
      · rw [List.filter_cons_of_pos hpackage] at h
        rw [if_neg (by simp [hpackage]), if_neg (hcopy hpackage)]
        obtain rfl | hlater := List.mem_cons.mp h
        · exact List.mem_cons_self
        · exact List.mem_cons_of_mem _ (ih hlater)
      · rw [List.filter_cons_of_neg hpackage] at h
        rw [if_pos (by simpa using hpackage)]
        exact ih h

end Collect

/-! ## The rebuilds -/

section Rebuild

variable {host : BuildHost} {config : Config} {hashes : List (Text × Text)}

theorem compareHash_spec (host : BuildHost) (repetition : Nat) (result : RunResult)
    (hash : Text × Text) :
    (compareHash host repetition result hash).artifacts = result.artifacts ∧
      ((compareHash host repetition result hash).reproducible = true ↔
        result.reproducible = true ∧
          fileFingerprint (host.rebuilt repetition hash.1) = hash.2) := by
  rw [compareHash]
  split
  · rename_i hother
    exact ⟨rfl, iff_of_false Bool.false_ne_true fun h => hother h.2⟩
  · rename_i hsame
    exact ⟨rfl, (and_iff_left (not_not.mp hsame)).symm⟩

theorem compareHashes_spec (host : BuildHost) (repetition : Nat) (result : RunResult)
    (hashes : List (Text × Text)) :
    (compareHashes host repetition result hashes).artifacts = result.artifacts ∧
      ((compareHashes host repetition result hashes).reproducible = true ↔
        result.reproducible = true ∧
          ∀ hash ∈ hashes, fileFingerprint (host.rebuilt repetition hash.1) = hash.2) := by
  induction hashes generalizing result with
  | nil => simp [compareHashes]
  | cons hash hashes ih =>
    obtain ⟨hartifacts, hreproducible⟩ := compareHash_spec host repetition result hash
    rw [compareHashes, List.foldl_cons, ← compareHashes, (ih _).1, (ih _).2, hartifacts,
      hreproducible, List.forall_mem_cons, and_assoc]
    exact ⟨rfl, Iff.rfl⟩

/-- The loop leaves the artifacts alone, and the build stays reproducible exactly when every
rebuild succeeds and repeats the first hashes. -/
theorem rebuildLoop_spec (host : BuildHost) (config : Config) (hashes : List (Text × Text))
    (repetitions : List Nat) (result : RunResult) :
    (rebuildLoop host config hashes repetitions result).artifacts = result.artifacts ∧
      ((rebuildLoop host config hashes repetitions result).reproducible = true ↔
        result.reproducible = true ∧ ∀ repetition ∈ repetitions,
          ¬ ((host.capture (repetition + 1) buildCommand config).timedOut = true ∨
            (host.capture (repetition + 1) buildCommand config).status ≠ 0) ∧
          ∀ hash ∈ hashes, fileFingerprint (host.rebuilt repetition hash.1) = hash.2) := by
  induction repetitions generalizing result with
  | nil => simp [rebuildLoop]
  | cons repetition repetitions ih =>
    obtain ⟨hartifacts, hreproducible⟩ := compareHashes_spec host repetition result hashes
    rw [rebuildLoop, List.forall_mem_cons]
    split
    · rename_i hfailed
      exact ⟨rfl, iff_of_false Bool.false_ne_true fun h => h.2.1.1 hfailed⟩
    · rename_i hfine
      rw [(ih _).1, (ih _).2, hartifacts, hreproducible, and_iff_right hfine, and_assoc]
      exact ⟨rfl, Iff.rfl⟩

end Rebuild

/-! ## A whole run -/

section Run

variable {host : BuildHost} {file : Pkgbuild} {options : RunOptions} {outcome : Outcome}

theorem listed_sublist (host : BuildHost) : host.listed.Sublist host.built := by
  rw [BuildHost.listed]
  split
  · exact List.nil_sublist _
  · exact List.Sublist.refl _

/-- The entries of the build directory are told by their names. -/
theorem eq_of_name {entry other : Built} (hentry : entry ∈ host.built) (hother : other ∈ host.built)
    (h : entry.name = other.name) : entry = other :=
  List.inj_on_of_nodup_map host.distinct hentry hother h

theorem mem_built_of_copied {entry : Built} (h : entry ∈ copiedOf host.listed) :
    entry ∈ host.built ∧ entry.isPackage = true := by
  obtain ⟨hmem, hpackage⟩ := List.mem_filter.mp h
  exact ⟨(listed_sublist host).subset ((List.takeWhile_prefix _).subset hmem), hpackage⟩

/-- The first hashes are those of the packages that have come to their copy. -/
theorem forall_firstHashes (host : BuildHost) (p : Text × Text → Prop) :
    (∀ hash ∈ assignAll [] ((hashedOf host.listed).map fun entry =>
        (entry.name, fileFingerprint entry.content)), p hash) ↔
      ∀ entry ∈ hashedOf host.listed, p (entry.name, fileFingerprint entry.content) := by
  have hnodup : (((hashedOf host.listed).map fun entry =>
      (entry.name, fileFingerprint entry.content)).map Prod.fst).Nodup := by
    rw [List.map_map]
    exact ((hashedOf_sublist _).trans (listed_sublist host)).map Built.name |>.nodup host.distinct
  constructor
  · intro h entry hentry
    exact h _ ((OrderedMap.mem_assignAll hnodup).mpr (List.mem_map_of_mem hentry))
  · intro h hash hhash
    obtain ⟨entry, hentry, rfl⟩ := List.mem_map.mp ((OrderedMap.mem_assignAll hnodup).mp hhash)
    exact h entry hentry

/-- A run that comes to the build directory, from the inputs: what it copies and lists, and when
it is `ok`. -/
structure Collects (host : BuildHost) (options : RunOptions) (config : Config)
    (outcome : Outcome) : Prop where
  copied : outcome.copied = (copiedOf host.listed).map Built.name
  artifacts : outcome.result.artifacts =
    (copiedOf host.listed).map fun entry => LexicalPath.append options.artifactRoot entry.name
  ok : outcome.result.ok = true ↔ copiedOf host.listed ≠ [] ∧
    ∀ repetition ∈ options.rebuilds, host.Repeats config (hashedOf host.listed) repetition

/-- A run returns early and is not `ok`, or it comes to the build directory. -/
theorem run_cases (h : run host file options = some outcome) :
    ((∃ result, prepare host file options = some (.error result)) ∧
      outcome.result.ok = false) ∨
      ∃ result config, prepare host file options = some (.ok (result, config)) ∧
        Collects host options config outcome := by
  rw [run] at h
  cases hprepared : prepare host file options with
  | none =>
    rw [hprepared] at h
    cases h
  | some prepared =>
    have hspec := prepare_spec hprepared
    rw [hprepared] at h
    cases prepared with
    | error result =>
      obtain rfl := Option.some.inj h
      exact Or.inl ⟨⟨result, rfl⟩, hspec⟩
    | ok prepared =>
      obtain ⟨result, config⟩ := prepared
      refine Or.inr ⟨result, config, rfl, ?_⟩
      dsimp only at h hspec
      split at h
      · cases h
      rename_i collected hcollected
      obtain ⟨hcopied, hartifacts, hhashes⟩ := collectLoop_spec hcollected
      obtain rfl := Option.some.inj h
      rw [List.nil_append] at hcopied hartifacts
      obtain ⟨hkept, hreproducible⟩ := rebuildLoop_spec host config collected.firstHashes
        options.rebuilds { result with artifacts := collected.artifacts }
      refine ⟨hcopied, hkept.trans hartifacts, ?_⟩
      show (!(rebuildLoop _ _ _ _ _).artifacts.isEmpty && (rebuildLoop _ _ _ _ _).reproducible) =
        true ↔ _
      rw [Bool.and_eq_true, hreproducible, hkept, and_iff_right hspec, hhashes, hartifacts]
      apply and_congr
      · simp
      · refine forall₂_congr fun repetition _ => ?_
        rw [forall_firstHashes]
        exact Iff.rfl

/-- What is read from a file has a fingerprint that is not empty. -/
theorem fingerprint_ne_nil (content : Text) : fingerprint content ≠ [] := Text.ofNat_ne_nil _

theorem sameFile_of_fingerprint {first second : Option Text} (hfirst : first ≠ none)
    (h : fileFingerprint second = fileFingerprint first) : SameFile first second := by
  cases first with
  | none => exact absurd rfl hfirst
  | some content =>
    rw [fileFingerprint_some] at h
    cases second with
    | none => exact absurd h.symm (fingerprint_ne_nil content)
    | some content' =>
      rw [fileFingerprint_some] at h
      exact ⟨content, content', rfl, rfl, h.symm⟩

/-- Every package in the build directory stands in front of the first entry that leaves an
error, and, if there are rebuilds, can be read behind the first build. -/
def BuildHost.Complete (host : BuildHost) (options : RunOptions) : Prop :=
  ∀ entry ∈ host.built, entry.isPackage = true →
    entry ∈ copiedOf host.listed ∧ (options.rebuilds ≠ [] → entry.content ≠ none)

end Run

/-- For every content of the build directory, every order in which it is read and every pattern
of errors with which `run` returns: a build that is `ok` has handed over everything if and only
if it returns before it comes to the build directory, or no package stands in front of the
first entry that leaves an error, or a rebuild fails or changes a package that has come to its
copy, or every package stands in front of the first error (and can be read, if there are
rebuilds). -/
theorem handsOver_iff (host : BuildHost) (file : Pkgbuild) (options : RunOptions)
    {outcome : Outcome} (h : run host file options = some outcome) :
    HandsOver host options outcome ↔
      (∃ result, prepare host file options = some (.error result)) ∨
        copiedOf host.listed = [] ∨
        (∃ result config, prepare host file options = some (.ok (result, config)) ∧
          ∃ repetition ∈ options.rebuilds,
            ¬ host.Repeats config (hashedOf host.listed) repetition) ∨
        host.Complete options := by
  obtain ⟨hearly, hnotOk⟩ | ⟨result, config, hprepared, hcollects⟩ := run_cases h
  · refine iff_of_true ?_ (Or.inl hearly)
    intro hok
    rw [hnotOk] at hok
    cases hok
  constructor
  · intro hhands
    by_cases hnone : copiedOf host.listed = []
    · exact Or.inr (Or.inl hnone)
    by_cases hrepeats : ∀ repetition ∈ options.rebuilds,
        host.Repeats config (hashedOf host.listed) repetition
    · -- the build is `ok`
      refine Or.inr (Or.inr (Or.inr ?_))
      intro entry hentry hpackage
      obtain ⟨hcopied, -, hsame⟩ :=
        hhands (hcollects.ok.mpr ⟨hnone, hrepeats⟩) entry hentry hpackage
      rw [hcollects.copied] at hcopied
      obtain ⟨other, hother, hname⟩ := List.mem_map.mp hcopied
      obtain rfl := eq_of_name (mem_built_of_copied hother).1 hentry hname
      refine ⟨hother, ?_⟩
      intro hrebuilds
      obtain ⟨repetition, hrepetition⟩ := List.exists_mem_of_ne_nil _ hrebuilds
      obtain ⟨content, -, hcontent, -, -⟩ := hsame repetition hrepetition
      rw [hcontent]
      nofun
    · refine Or.inr (Or.inr (Or.inl ⟨result, config, hprepared, ?_⟩))
      simpa using hrepeats
  · intro hcondition hok
    obtain ⟨hne, hrepeats⟩ := hcollects.ok.mp hok
    obtain ⟨early, hearly⟩ | hnone | ⟨result', config', hprepared', repetition, hmem, hnot⟩ |
      hcomplete := hcondition
    · rw [hprepared] at hearly
      cases hearly
    · exact absurd hnone hne
    · rw [hprepared] at hprepared'
      obtain ⟨-, rfl⟩ := Prod.mk.inj (Except.ok.inj (Option.some.inj hprepared'))
      exact absurd (hrepeats repetition hmem) hnot
    · intro entry hentry hpackage
      obtain ⟨hcopied, hread⟩ := hcomplete entry hentry hpackage
      refine ⟨?_, ?_, ?_⟩
      · rw [hcollects.copied]
        exact List.mem_map_of_mem hcopied
      · rw [hcollects.artifacts]
        exact List.mem_map_of_mem (f := fun entry => LexicalPath.append _ entry.name) hcopied
      · intro repetition hrepetition
        apply sameFile_of_fingerprint (hread (List.ne_nil_of_mem hrepetition))
        exact (hrepeats repetition hrepetition).2 entry (mem_hashedOf_of_copied hcopied)

/-- A host on which `makepkg` leaves the same two packages every time, and the copy of the second
one ends like this. -/
def twoPackages (copyError : Option Text) : BuildHost where
  capture := fun _ _ _ => { status := 0 }
  built := [{ name := "a-1.pkg.tar.zst".toList, content := some "zst".toList },
    { name := "b-1.pkg.tar.zst".toList, content := some "zst".toList, copyError := copyError }]
  rebuilt := fun _ _ => some "zst".toList
  distinct := by
    show (["a-1.pkg.tar.zst".toList, "b-1.pkg.tar.zst".toList] : List Text).Nodup
    decide

/-- Both are handed over when both copies succeed, also with a rebuild. -/
theorem handsOver_two : ∃ outcome,
    run (twoPackages none) (pkgbuild "a.tar".toList) { repetitions := 2 } = some outcome ∧
      HandsOver (twoPackages none) { repetitions := 2 } outcome := by
  refine ⟨_, rfl, ?_⟩
  apply (handsOver_iff (twoPackages none) (pkgbuild "a.tar".toList) { repetitions := 2 } rfl).mpr
  refine Or.inr (Or.inr (Or.inr ?_))
  intro entry hentry _
  refine ⟨hentry, fun _ => ?_⟩
  rcases List.mem_pair.mp hentry with rfl | rfl
  · exact Option.some_ne_none _
  · exact Option.some_ne_none _

/-- The disk is full behind the first package, and the build is `ok` without the second. -/
theorem not_handsOver_full : ∃ outcome,
    run (twoPackages (some "No space left on device".toList)) (pkgbuild "a.tar".toList) {} =
        some outcome ∧
      outcome.result.ok = true ∧
      outcome.result.artifacts = ["/tmp/execell-build-artifacts/a-1.pkg.tar.zst".toList] ∧
      ¬ HandsOver (twoPackages (some "No space left on device".toList)) {} outcome := by
  refine ⟨_, rfl, by decide +kernel, by decide +kernel, ?_⟩
  intro hhands
  obtain ⟨hcopied, -⟩ := hhands (by decide +kernel)
    { name := "b-1.pkg.tar.zst".toList, content := some "zst".toList,
      copyError := some "No space left on device".toList }
    (by decide) (by decide)
  exact absurd hcopied (by decide +kernel)

end ExeCell.Package.Build
