import ExeCell.Package.BuildRun
import ExeCell.Package.Scan
import ExeCell.Sandbox.FailClosed

/-!
# Where the code of a package runs

`gpgv`, `pacman`, the files of a package and `makepkg` are all started by `run_captured`, each
with a configuration of its own. All of these configurations are `Hardened`.

`scan_hardened` and `run_hardened` say so of whole scans and builds: what `run_captured` would
do for a configuration that is not hardened makes no difference to them. `hardened_confined`
says what a hardened configuration comes to: behind it nothing is started outside of the
namespaces, with a capability, or past the filter.
-/

namespace ExeCell.Package

open Sandbox (Config Captured defaultPackageSyscalls)

/-- What every sandbox of the package commands asks for. -/
structure Hardened (config : Config) : Prop where
  userNamespace : config.userNamespace = true
  mountNamespace : config.mountNamespace = true
  networkNamespace : config.networkNamespace = true
  dropCapabilities : config.dropCapabilities = true
  noNewPrivileges : config.noNewPrivileges = true
  cleanEnvironment : config.cleanEnvironment = true
  root : config.readOnlyRoot = true ∨ config.rootfs ≠ []
  seccompAllowlist : config.seccompAllowlist = defaultPackageSyscalls
  maxProcesses : config.maxProcesses ≠ 0
  maxFileBytes : config.maxFileBytes ≠ 0

/-- Both give the same answer for every hardened configuration. -/
def AgreeHardened (capture capture' : List Text → Config → Captured) : Prop :=
  ∀ command config, Hardened config → capture command config = capture' command config

/-! ## The configurations -/

theorem hardened_verifyConfig (options : ScanOptions) : Hardened (verifyConfig options) :=
  ⟨rfl, rfl, rfl, rfl, rfl, rfl, Or.inl rfl, rfl, Nat.succ_ne_zero _, Nat.succ_ne_zero _⟩

theorem hardened_installConfig (options : PackageOptions) {root : Text} (hroot : root ≠ []) :
    Hardened (installConfig options root) :=
  ⟨rfl, rfl, rfl, rfl, rfl, rfl, Or.inr hroot, rfl, Nat.succ_ne_zero _, Nat.succ_ne_zero _⟩

theorem hardened_taskConfig (options : Options) (host : TaskHost) {root : Text}
    (hroot : root ≠ []) : Hardened (taskConfig options host root) :=
  ⟨rfl, rfl, rfl, rfl, rfl, rfl, Or.inr hroot, rfl, Nat.succ_ne_zero _, Nat.succ_ne_zero _⟩

theorem hardened_makepkgConfig (options : Build.RunOptions) {session : Rootfs.Session}
    (hroot : session.writable ≠ []) : Hardened (Build.makepkgConfig options session) :=
  ⟨rfl, rfl, rfl, rfl, rfl, rfl, Or.inr hroot, rfl, Nat.succ_ne_zero _, Nat.succ_ne_zero _⟩

/-! ## The root of a session -/

section Writable

variable {host : Rootfs.Host} {session : Rootfs.Session}

theorem append_ne_nil {base path : Text} (h : path ≠ []) : LexicalPath.append base path ≠ [] := by
  rw [LexicalPath.append]
  split
  · exact h
  split
  · intro hnil
    exact h (List.append_eq_nil_iff.mp hnil).2
  · intro hnil
    exact absurd (List.append_eq_nil_iff.mp hnil).2 (List.cons_ne_nil _ _)

theorem writable_degradedSession {workspace base error : Text}
    (h : Rootfs.degradedSession host workspace base error = .ok session) :
    session.writable ≠ [] := by
  rw [Rootfs.degradedSession] at h
  split at h
  · cases h
  · cases h
    dsimp only
    exact append_ne_nil (List.append_ne_nil_of_left_ne_nil (List.cons_ne_nil _ _) _)

theorem writable_snapshotSession {workspace base parent : Text}
    (h : Rootfs.snapshotSession host workspace base parent = some (.ok session)) :
    session.writable ≠ [] := by
  rw [Rootfs.snapshotSession.eq_def] at h
  split at h
  · cases h
  · cases h
  · cases h
  · cases h
  · split at h
    · exact writable_degradedSession (Option.some.inj h)
    · cases h
      dsimp only
      exact append_ne_nil (List.append_ne_nil_of_left_ne_nil (List.cons_ne_nil _ _) _)

/-- The root of a session is a path. -/
theorem writable_create {source workspace : Text}
    (h : Rootfs.Session.create host source workspace = some (.ok session)) :
    session.writable ≠ [] := by
  rw [Rootfs.Session.create] at h
  split at h
  · cases h
  split at h
  · cases h
  split at h
  · cases h
  split at h
  · exact writable_degradedSession (Option.some.inj h)
  split at h
  · split at h
    · cases h
    · exact writable_snapshotSession h
  · exact writable_snapshotSession h

end Writable

/-! ## A scan -/

/-- The host with another `run_captured`. -/
def PackageHost.capturing (host : PackageHost) (capture : List Text → Config → Captured) :
    PackageHost := { host with capture := capture }

def ScanHost.capturing {options : PackageOptions} (host : ScanHost options)
    (capture : List Text → Config → Captured) : ScanHost options :=
  { host with package := host.package.capturing capture }

section Scan

variable {options : PackageOptions} {host : ScanHost options} {package : Text}
  {capture : List Text → Config → Captured}

theorem inspectRun_capturing {host : PackageHost} {options : ScanOptions}
    (h : AgreeHardened host.capture capture) :
    inspectRun (host.capturing capture) package options = inspectRun host package options := by
  have hverify (command : List Text) :
      (host.capturing capture).capture command (verifyConfig options) =
        host.capture command (verifyConfig options) :=
    (h command _ (hardened_verifyConfig options)).symm
  have hchecks : verifySignature (host.capturing capture) package options =
      verifySignature host package options := by
    simp only [verifySignature, hverify]
    rfl
  simp only [inspectRun, hchecks]
  rfl

theorem installStage_capturing {session : Rootfs.Session} {result : Result}
    (h : AgreeHardened host.package.capture capture) (hroot : session.writable ≠ []) :
    installStage (host.capturing capture) package session result =
      installStage host package session result := by
  have hinstall : (host.capturing capture).package.capture (installCommand package)
        (installConfig options session.writable) =
      host.package.capture (installCommand package) (installConfig options session.writable) :=
    (h _ _ (hardened_installConfig options hroot)).symm
  simp only [installStage, hinstall]
  rfl

theorem sessionStage_capturing {result : Result}
    (h : AgreeHardened host.package.capture capture) :
    sessionStage (host.capturing capture) package result = sessionStage host package result := by
  cases hcreate : Rootfs.Session.create host.rootfs options.rootfs
    (uniqueDirectory host.temp "execell-rootfs-".toList host.pid host.rootStamp host.make) with
  | none =>
    simp only [sessionStage, ScanHost.capturing, hcreate]
    rfl
  | some created =>
    cases created with
    | error message =>
      simp only [sessionStage, ScanHost.capturing, hcreate]
      rfl
    | ok session =>
      have hinstall : ∀ result, installStage (host.capturing capture) package session result =
          installStage host package session result :=
        fun result => installStage_capturing h (writable_create hcreate)
      simp only [ScanHost.capturing] at hinstall
      simp only [sessionStage, ScanHost.capturing, hcreate, hinstall]
      rfl

theorem mirrorStage_capturing {result : Result}
    (h : AgreeHardened host.package.capture capture) :
    mirrorStage (host.capturing capture) package result = mirrorStage host package result := by
  unfold mirrorStage
  rw [sessionStage_capturing h]

theorem scan_capturing (h : AgreeHardened host.package.capture capture) :
    scan (host.capturing capture) package = scan host package := by
  have hinspect : inspectRun (host.package.capturing capture) package options.toScanOptions =
      inspectRun host.package package options.toScanOptions := inspectRun_capturing h
  have hhost : (host.capturing capture).package = host.package.capturing capture := rfl
  simp only [scan, mirrorStage_capturing h, hhost, hinspect]
  rfl

/-- A task of `observe`, in a session that has a root. -/
theorem runOne_capturing {options : Options} {host : TaskHost} {task : Task}
    (hsession : ∀ root ∈ host.session, root ≠ []) (h : AgreeHardened host.capture capture) :
    runOne options { host with capture := capture } task = runOne options host task := by
  unfold runOne
  dsimp only
  split
  · rfl
  split
  · rfl
  split
  · rfl
  rename_i root hroot
  have hconfig : taskConfig options { host with capture := capture } root =
      taskConfig options host root := rfl
  rw [hconfig, ← h _ _ (hardened_taskConfig options host (hsession root hroot))]

end Scan

/-! ## A build -/

/-- The host with another `run_captured`. -/
def Build.BuildHost.capturing (host : Build.BuildHost)
    (capture : Nat → List Text → Config → Captured) : Build.BuildHost :=
  { host with capture := capture }

section Build

open Build
open Aur (Pkgbuild Manifest)

variable {host : BuildHost} {options : RunOptions} {file : Pkgbuild} {config : Config}
  {capture : Nat → List Text → Config → Captured}

theorem runPhases_capturing {manifest : Manifest} {result : RunResult}
    (h : ∀ n, AgreeHardened (host.capture n) (capture n)) (hconfig : Hardened config) :
    runPhases (host.capturing capture) options manifest config result =
      runPhases host options manifest config result := by
  have hcapture (n : Nat) (command : List Text) :
      (host.capturing capture).capture n command config = host.capture n command config :=
    (h n command config hconfig).symm
  simp only [runPhases, hcapture]
  rfl

/-- What a build is prepared for is run in the sandbox of `makepkg`. -/
theorem hardened_prepare {result : RunResult}
    (h : prepare host file options = some (.ok (result, config))) : Hardened config := by
  rw [prepare] at h
  split at h
  · cases h
  split at h
  · cases h
  split at h
  · cases h
  · cases h
  rename_i session hsession
  split at h
  · cases h
  split at h
  · cases h
  split at h
  · cases h
  dsimp only at h
  split at h
  · cases h
  · cases h
    exact hardened_makepkgConfig options (writable_create hsession)

theorem prepare_capturing (h : ∀ n, AgreeHardened (host.capture n) (capture n)) :
    prepare (host.capturing capture) file options = prepare host file options := by
  have hphases : ∀ session, session.writable ≠ [] → ∀ manifest result,
      runPhases (host.capturing capture) options manifest (makepkgConfig options session) result =
        runPhases host options manifest (makepkgConfig options session) result :=
    fun session hroot manifest result =>
      runPhases_capturing h (hardened_makepkgConfig options hroot)
  cases hcreate : Rootfs.Session.create host.rootfs options.rootfs options.workspace with
  | none =>
    simp only [prepare, BuildHost.capturing, hcreate]
  | some created =>
    cases created with
    | error message =>
      simp only [prepare, BuildHost.capturing, hcreate]
    | ok session =>
      have hsession := hphases session (writable_create hcreate)
      simp only [BuildHost.capturing] at hsession
      simp only [prepare, BuildHost.capturing, hcreate, hsession]

theorem rebuildLoop_capturing {hashes : List (Text × Text)} {repetitions : List Nat}
    {result : RunResult} (h : ∀ n, AgreeHardened (host.capture n) (capture n))
    (hconfig : Hardened config) :
    rebuildLoop (host.capturing capture) config hashes repetitions result =
      rebuildLoop host config hashes repetitions result := by
  induction repetitions generalizing result with
  | nil => rfl
  | cons repetition repetitions ih =>
    have hcapture : (host.capturing capture).capture (repetition + 1) buildCommand config =
        host.capture (repetition + 1) buildCommand config := (h _ _ config hconfig).symm
    simp only [rebuildLoop, hcapture, ih]
    rfl

theorem run_capturing (h : ∀ n, AgreeHardened (host.capture n) (capture n)) :
    run (host.capturing capture) file options = run host file options := by
  have hlisted : (host.capturing capture).listed = host.listed := rfl
  simp only [run, prepare_capturing h, hlisted]
  cases hprepare : prepare host file options with
  | none => rfl
  | some prepared =>
    cases prepared with
    | error result => rfl
    | ok pair =>
      obtain ⟨result, config⟩ := pair
      have hrebuild (hashes : List (Text × Text)) (result : RunResult) :
          rebuildLoop (host.capturing capture) config hashes options.rebuilds result =
            rebuildLoop host config hashes options.rebuilds result :=
        rebuildLoop_capturing h (hardened_prepare hprepare)
      simp only [hrebuild]

end Build

/-- Scans, observed tasks and builds start nothing but in hardened sandboxes: they come to the
same end when `run_captured` is replaced by one that answers differently for every other
configuration. -/
theorem package_hardened :
    (∀ {options : PackageOptions} (host : ScanHost options) (package : Text) capture,
      AgreeHardened host.package.capture capture →
        scan (host.capturing capture) package = scan host package) ∧
    (∀ (options : Options) (host : TaskHost) (task : Task) capture,
      (∀ root ∈ host.session, root ≠ []) → AgreeHardened host.capture capture →
        runOne options { host with capture := capture } task = runOne options host task) ∧
    (∀ (host : Build.BuildHost) (file : Aur.Pkgbuild) (options : Build.RunOptions) capture,
      (∀ n, AgreeHardened (host.capture n) (capture n)) →
        Build.run (host.capturing capture) file options = Build.run host file options) :=
  ⟨fun _ _ _ h => scan_capturing h, fun _ _ _ _ hsession h => runOne_capturing hsession h,
    fun _ _ _ _ h => run_capturing h⟩

/-- Outside of a network namespace nothing can be captured. -/
def onlyIsolated (capture : List Text → Config → Captured) (command : List Text)
    (config : Config) : Captured :=
  if config.networkNamespace then capture command config else { status := 1 }

theorem package_hardened_vetted :
    scan (vettedHost.capturing (onlyIsolated vettedHost.package.capture)) packagePath =
      scan vettedHost packagePath := by
  apply package_hardened.1
  intro command config hconfig
  rw [onlyIsolated, if_pos hconfig.networkNamespace]

/-! ## Behind a hardened configuration -/

open Sandbox (Effect Ids IdsMapped)

/-- What has been applied to a process of a package before it starts. -/
structure Confined (config : Config) (ids : Ids) (done : List Effect) : Prop where
  user : .called (.unshare .user) ∈ done ∧ IdsMapped config ids done
  mount : .called (.unshare .mount) ∈ done ∧ .called Sandbox.mountPrivate ∈ done ∧
    .called Sandbox.mountTmp ∈ done
  network : .called (.unshare .net) ∈ done
  root : (.called Sandbox.bindRoot ∈ done ∧ .called Sandbox.remountRootReadOnly ∈ done) ∨
    ∃ root, root ≠ [] ∧ .called (.chroot root) ∈ done ∧ .called (.chdir "/".toList) ∈ done
  capabilities : .called .capset ∈ done ∧ .called .setNoNewPrivs ∈ done
  filter : .called (.seccomp defaultPackageSyscalls) ∈ done
  limits : ∃ processes bytes, processes ≠ 0 ∧ bytes ≠ 0 ∧
    .called (.setrlimit .processes processes) ∈ done ∧
    .called (.setrlimit .fileSize bytes) ∈ done
  environment : .called .clearenv ∈ done

/-- Whatever the calls of the two processes answer and however these interleave: behind a
hardened configuration the target starts only when all of that has been applied, if `capset`
does not fail. -/
theorem hardened_confined {host : Sandbox.Host} {config : Config} {ids : Ids} {pipe fork : Bool}
    {w w' : Sandbox.World} {moves : List Sandbox.Move} {outputs : List Unit}
    (hconfig : Hardened config) (hlaunch : Sandbox.launch host config ids pipe fork = some w)
    (hcapset : Machine.Along Sandbox.setupStep (fun w move => ¬ Sandbox.CapsetFails w move) w moves)
    (hrun : Machine.run Sandbox.setupStep w moves = some (outputs, w'))
    (htarget : w'.AtTarget) : Confined config ids w'.done := by
  have hcontained := Sandbox.contained_of_namespaces hconfig.userNamespace hconfig.mountNamespace
    hlaunch hcapset hrun htarget
  have hfilter : config.seccompAllowlist ≠ [] := by
    rw [hconfig.seccompAllowlist]
    exact List.cons_ne_nil _ _
  constructor
  case user =>
    obtain ⟨hunshare, _, hmapped⟩ := hcontained.userNamespace hconfig.userNamespace
    exact ⟨hunshare, hmapped⟩
  case mount => exact hcontained.mountNamespace hconfig.mountNamespace
  case network => exact hcontained.networkNamespace hconfig.networkNamespace
  case root =>
    rcases hconfig.root with hreadOnly | hrootfs
    · exact Or.inl (hcontained.readOnlyRoot hreadOnly)
    · exact Or.inr ⟨config.rootfs, hrootfs, hcontained.rootfs hrootfs⟩
  case capabilities =>
    exact ⟨hcontained.dropCapabilities hconfig.dropCapabilities,
      hcontained.noNewPrivileges hconfig.noNewPrivileges⟩
  case filter =>
    rw [← hconfig.seccompAllowlist]
    exact hcontained.seccomp hfilter
  case limits =>
    exact ⟨config.maxProcesses, config.maxFileBytes, hconfig.maxProcesses, hconfig.maxFileBytes,
      hcontained.maxProcesses hconfig.maxProcesses, hcontained.maxFileBytes hconfig.maxFileBytes⟩
  case environment => exact (hcontained.cleanEnvironment hconfig.cleanEnvironment).1

/-- A run on which nothing fails, for the sandbox of `gpgv`. -/
def quietVerifyMoves : List Sandbox.Move := Sandbox.quietSetup [] (List.replicate 18 0)

theorem hardened_confined_verify :
    ∃ w w' outputs,
      Sandbox.launch {} (verifyConfig {}) Sandbox.launchIds true true = some w ∧
      Machine.run Sandbox.setupStep w quietVerifyMoves = some (outputs, w') ∧ w'.AtTarget ∧
      Confined (verifyConfig {}) Sandbox.launchIds w'.done := by
  obtain ⟨w, w', outputs, hlaunch, hrun, htarget, _⟩ :=
    Sandbox.exists_of_targetEffects (P := fun _ => true)
      (show (Sandbox.targetEffects (verifyConfig {}) Sandbox.launchIds
        quietVerifyMoves).any _ by decide)
  refine ⟨w, w', outputs, hlaunch, hrun, htarget, ?_⟩
  refine hardened_confined (hardened_verifyConfig {}) hlaunch ?_ hrun htarget
  apply Machine.along_of_forall_mem
  rintro move hmem v ⟨ops, progress, error, _, rfl⟩
  exact Sandbox.fail_not_mem_quietSetup hmem

end ExeCell.Package
