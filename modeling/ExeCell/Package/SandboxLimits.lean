import ExeCell.Package.BuildRun
import ExeCell.Package.Scan
import ExeCell.Sandbox.FailClosed
import ExeCell.Sandbox.Outcome

/-!
# What the sandbox refuses

The options of the package commands become the configurations of their sandboxes without a
check of their own, and `sandbox::run` starts nothing for a configuration that it does not
accept. Its child then exits with a failure, which `run_captured` hands on as a status.

So a timeout of more than a day, which the command line takes, is one with which no package is
accepted and nothing of a package is run (`scan_within_day`, `build_within_limits`).
-/

namespace ExeCell.Package

open Sandbox (Config Captured CaptureRun RunEnv captureStatus validate validateCgroup)

/-! ## A status of zero -/

/-- What is accepted has at most a day of the processor, and a budget that is accepted. -/
theorem limits_of_validate {host : Sandbox.Host} {config : Config}
    (h : validate host config = .ok ()) :
    config.cpuSeconds ≤ 86400 ∧ validateCgroup host config.cgroup = .ok () := by
  simp only [validate, bind, Except.bind] at h
  split at h
  · cases h
  split at h
  · cases h
  split at h
  · cases h
  split at h
  · cases h
  split at h
  · cases h
  rename_i hcpu
  split at h
  · cases h
  split at h
  · cases h
  · exact ⟨by omega, h⟩

/-- A status of zero comes only from a configuration that is accepted. -/
theorem valid_of_captured_zero {env : CaptureRun} {config : Config} {args : List Text}
    {limit : Nat} {captured : Captured} (hargs : args ≠ []) (hwaited : env.waited = true)
    (h : env.captured config args limit = some captured) (hzero : captured.status = 0) :
    validate env.run.host config = .ok () := by
  rcases CaptureRun.captured_cases hargs h with ⟨_, rfl⟩ | ⟨hforked, _, hwait⟩
  · cases hzero
  rcases hwait with ⟨_, ending, hending, hstatus⟩ | ⟨hnone, _⟩
  · rw [hstatus, captureStatus] at hzero
    split at hzero
    · cases hzero
    · have hended : ending.status = 0 :=
        (WaitStatus.Ending.shellStatus_eq_zero_iff ending (-1)).mp hzero
      obtain ⟨target, htarget, _⟩ := CaptureRun.childEnding_zero hforked hending hended
      rw [CaptureRun.targetEnding, RunEnv.targetEnding, RunEnv.world] at htarget
      cases hlaunch : Sandbox.launch env.run.host config env.run.ids env.run.pipe env.run.fork with
      | none => simp [hlaunch] at htarget
      | some w => exact (Sandbox.launch_eq hlaunch).1
  · rw [hwaited] at hnone
    cases hnone

/-! ## Scans and builds -/

/-- The answers of `run_captured` are those of runs of the sandbox on this host, which it waits
for. -/
def Genuine (sandboxHost : Sandbox.Host) (capture : List Text → Config → Captured) : Prop :=
  ∀ command config, command ≠ [] → ∃ (env : CaptureRun) (limit : Nat),
    env.run.host = sandboxHost ∧ env.waited = true ∧
      env.captured config command limit = some (capture command config)

section Limits

variable {sandboxHost : Sandbox.Host}

theorem Genuine.valid {capture : List Text → Config → Captured} (h : Genuine sandboxHost capture)
    {command : List Text} {config : Config} (hcommand : command ≠ [])
    (hzero : (capture command config).status = 0) : validate sandboxHost config = .ok () := by
  obtain ⟨env, limit, rfl, hwaited, hcaptured⟩ := h command config hcommand
  exact valid_of_captured_zero hcommand hwaited hcaptured hzero

theorem timeout_of_inspect {host : PackageHost} {package : Text} {options : ScanOptions}
    (hgenuine : Genuine sandboxHost host.capture)
    (h : (inspect host package options).ok = true) : options.timeout ≤ 86400 := by
  obtain ⟨info, entries, hadmitted⟩ := admitted_of_inspect h
  obtain ⟨verified, _, rfl, hzero, _⟩ := verifySignature_of_ok hadmitted.signature
  exact (limits_of_validate (hgenuine.valid (List.cons_ne_nil _ _) hzero)).1

/-- With a timeout of more than a day a scan runs nothing of its package, and is not `ok`. -/
theorem scan_within_day {options : PackageOptions} {host : ScanHost options} {package : Text}
    (hgenuine : Genuine sandboxHost host.package.capture) (hday : 86400 < options.timeout) :
    (∀ step ∈ (scan host package).steps, ¬ step.Executes) ∧
      ∀ result ∈ (scan host package).result, result.ok = false := by
  have hinspect : (inspect host.package package options.toScanOptions).ok = false := by
    rw [Bool.eq_false_iff]
    intro hok
    exact absurd (timeout_of_inspect hgenuine hok) (by omega)
  rw [scan]
  split
  · refine ⟨List.forall_mem_nil _, ?_⟩
    intro result hresult
    cases hresult
    rfl
  dsimp only
  split
  · refine ⟨not_executes_inspected, ?_⟩
    intro result hresult
    cases hresult
  · rw [← inspect, if_pos (by simp [hinspect])]
    refine ⟨?_, ?_⟩
    · intro step hstep
      exact not_executes_inspected step (by simpa [Gate.Run.after] using hstep)
    · intro result hresult
      cases hresult
      rfl

end Limits

section Build

open Build
open Aur (Pkgbuild Manifest)

variable {sandboxHost : Sandbox.Host} {host : BuildHost} {options : RunOptions} {file : Pkgbuild}
  {config : Config}

theorem sourced_of_runPhases {manifest : Manifest} {result final : RunResult}
    (h : runPhases host options manifest config result = .ok final) :
    (host.capture 0 sourceCommand config).status = 0 := by
  rw [runPhases] at h
  dsimp only at h
  split at h
  · cases h
  split at h
  · cases h
  · rename_i hstatus
    exact not_not.mp hstatus

/-- A build that comes to its build directory has run `makepkg` with status zero. -/
theorem sourced_of_prepare {result : RunResult}
    (h : prepare host file options = some (.ok (result, config))) :
    (∃ session, config = makepkgConfig options session) ∧
      (host.capture 0 sourceCommand config).status = 0 := by
  rw [prepare] at h
  split at h
  · cases h
  split at h
  · cases h
  split at h
  · cases h
  · cases h
  rename_i session _
  split at h
  · cases h
  split at h
  · cases h
  split at h
  · cases h
  dsimp only at h
  split at h
  · cases h
  · rename_i hphases
    cases h
    exact ⟨⟨session, rfl⟩, sourced_of_runPhases hphases⟩

/-- A build that is `ok` has a timeout of at most a day, and a cgroup root that the sandbox
accepts. -/
theorem build_within_limits {outcome : Outcome}
    (hgenuine : ∀ n, Genuine sandboxHost (host.capture n))
    (h : run host file options = some outcome) (hok : outcome.result.ok = true) :
    options.timeout ≤ 86400 ∧
      validateCgroup sandboxHost { path := options.cgroupRoot } = .ok () := by
  rcases run_cases h with ⟨_, hnot⟩ | ⟨result, config, hprepare, _⟩
  · rw [hok] at hnot
    cases hnot
  · obtain ⟨⟨session, rfl⟩, hzero⟩ := sourced_of_prepare hprepare
    exact limits_of_validate ((hgenuine 0).valid (List.cons_ne_nil _ _) hzero)

end Build

/-- With a timeout of more than a day, which the command line takes, no scan runs anything of
its package or is `ok`, and no build is `ok`, if `run_captured` answers what the sandbox comes
to. -/
theorem overlong_timeout {sandboxHost : Sandbox.Host} :
    (∀ {options : PackageOptions} (host : ScanHost options) (package : Text),
      Genuine sandboxHost host.package.capture → 86400 < options.timeout →
        (∀ step ∈ (scan host package).steps, ¬ step.Executes) ∧
          ∀ result ∈ (scan host package).result, result.ok = false) ∧
    ∀ (host : Build.BuildHost) (file : Aur.Pkgbuild) (options : Build.RunOptions),
      (∀ n, Genuine sandboxHost (host.capture n)) → 86400 < options.timeout →
        ∀ outcome ∈ Build.run host file options, outcome.result.ok = false := by
  refine ⟨fun _ _ hgenuine hday => scan_within_day hgenuine hday, ?_⟩
  intro host file options hgenuine hday outcome houtcome
  rw [Bool.eq_false_iff]
  intro hok
  have hlimit := (build_within_limits hgenuine houtcome hok).1
  omega

/-- A run of the sandbox in which nothing is started. -/
def refusingRun : CaptureRun where
  run := { host := {}, ids := { pid := 101, uid := 1000, gid := 1000 }, fork := false,
           trace := .reporting {} }
  passes := [{ out := { last := .eof }, err := { last := .eof } }]

theorem genuine_refusing : Genuine {} fun _ _ => { status := 1 } := by
  intro command config hcommand
  refine ⟨refusingRun, 0, rfl, rfl, ?_⟩
  have hlaunch : Sandbox.launch refusingRun.run.host config refusingRun.run.ids
      refusingRun.run.pipe refusingRun.run.fork = none := by
    rw [Sandbox.launch]
    split <;> rfl
  have hresult : refusingRun.run.result config = some 1 := by
    rw [RunEnv.result, hlaunch]
    rfl
  rw [CaptureRun.captured, CaptureRun.captureEnv_of_result rfl rfl rfl hresult]
  dsimp only
  rw [Sandbox.runCaptured, if_neg (by simp [hcommand, refusingRun])]
  rfl

def longOptions : PackageOptions := { timeout := 86401 }

/-- A host on which every step but the verification succeeds. -/
def longHost : ScanHost longOptions where
  package := { packageHost [] with capture := fun _ _ => { status := 1 } }
  turns := []
  calls _ task := Call.returning _ {} task

theorem overlong_timeout_long :
    ∀ result ∈ (scan longHost packagePath).result, result.ok = false :=
  (overlong_timeout.1 longHost packagePath genuine_refusing (by decide)).2

end ExeCell.Package
