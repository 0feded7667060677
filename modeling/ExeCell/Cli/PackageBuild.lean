import ExeCell.Cli.PackageOptions
import ExeCell.Cli.Tracing
import ExeCell.Package.BuildRun

/-!
# The command package build

`execell package build` builds a PKGBUILD and then scans what was built, and its exit code is
zero when the build and every scan are `ok`. A scan asks for a detached signature beside its
package, and the build hands over everything with `.pkg.tar.` in its name. So a signature that
`makepkg` has made is handed over as a package and scanned as one, which is never `ok`
(`packageBuild_accepts`): what is accepted has its signature from elsewhere.
-/

namespace ExeCell.Cli

open Package (ScanHost scan packageName)
open Package.Build (BuildHost RunOptions RunResult Outcome)

/-- `build::Options` as `main` fills them in. -/
def buildOptions (options : PackageArgs) : RunOptions where
  rootfs := options.rootfs
  workspace := LexicalPath.append options.sessionRoot "build-workspace".toList
  artifactRoot := LexicalPath.append options.sessionRoot "build-artifacts".toList
  timeout := options.timeout
  network := options.network = "mirror".toList
  allowedHosts := options.allowedHosts
  cgroupRoot := options.cgroupRoot
  repetitions := options.buildRepetitions

/-- What the system answers to the build, and to the scans by their number. -/
structure PackageBuildHost (options : PackageArgs) where
  build : BuildHost
  scan : Nat → ScanHost options.toPackageOptions

section Command

variable {options : PackageArgs}

/-- The loop over the artifacts from one number on: whether all are `ok`, and the lines about
them. There is no answer when a scan throws. -/
def scanArtifacts (host : PackageBuildHost options) : Nat → List Text → Option (Bool × Text)
  | _, [] => some (true, [])
  | n, artifact :: artifacts =>
    match (scan (host.scan n) artifact).result with
    | none => none
    | some scanned =>
      (scanArtifacts host (n + 1) artifacts).map fun (packagesOk, lines) =>
        (scanned.ok && packagesOk,
          "artifact: ".toList ++ Analyze.quoted artifact ++ " verdict=".toList ++
            scanned.verdict ++ ['\n'] ++ lines)

/-- The lines about the build. -/
def buildLines (built : RunResult) : Text :=
  (if built.ok then "build: ok\n".toList else "build: rejected\n".toList) ++
    (if built.error = [] then [] else "error: ".toList ++ built.error ++ ['\n']) ++
    built.findings.flatMap fun finding => "finding: ".toList ++ finding ++ ['\n']

/-- `main` for `execell package build`. -/
def packageBuild (host : PackageBuildHost options) (file : Package.Aur.Pkgbuild) : Option Ended :=
  match Package.Build.run host.build file (buildOptions options) with
  | none => none
  | some outcome =>
    let built := outcome.result
    if !built.ok then some { code := 1, out := buildLines built }
    else
      (scanArtifacts host 0 built.artifacts).map fun (packagesOk, lines) =>
        { code := if packagesOk then 0 else 1, out := buildLines built ++ lines }

/-! ## What is accepted -/

variable {host : PackageBuildHost options} {file : Package.Aur.Pkgbuild} {outcome : Outcome}
  {ended : Ended}

/-- The scan of an artifact is `ok`. -/
def Accepts (host : PackageBuildHost options) (n : Nat) (artifact : Text) : Prop :=
  ∃ result, (scan (host.scan n) artifact).result = some result ∧ result.ok = true

theorem scanArtifacts_ok {n : Nat} {artifacts : List Text} {packagesOk : Bool} {lines : Text}
    (h : scanArtifacts host n artifacts = some (packagesOk, lines)) :
    packagesOk = true ↔
      ∀ i artifact, artifacts[i]? = some artifact → Accepts host (n + i) artifact := by
  induction artifacts generalizing n packagesOk lines with
  | nil =>
    cases h
    refine iff_of_true rfl ?_
    intro i artifact hget
    cases hget
  | cons first artifacts ih =>
    rw [scanArtifacts] at h
    split at h
    · cases h
    rename_i scanned hscanned
    obtain ⟨⟨laterOk, later⟩, hlater, heq⟩ := Option.map_eq_some_iff.mp h
    cases heq
    have hfirst : scanned.ok = true ↔ Accepts host n first := by
      constructor
      · intro hok
        exact ⟨scanned, hscanned, hok⟩
      · rintro ⟨result, hresult, hok⟩
        rw [hscanned] at hresult
        obtain rfl := Option.some.inj hresult
        exact hok
    rw [Bool.and_eq_true, hfirst, ih hlater]
    constructor
    · rintro ⟨hnow, hall⟩ i artifact hget
      cases i with
      | zero =>
        obtain rfl := Option.some.inj hget
        exact hnow
      | succ i =>
        have hnext : Accepts host (n + 1 + i) artifact := hall i artifact hget
        rwa [Nat.add_assoc, Nat.add_comm 1] at hnext
    · intro hall
      refine ⟨hall 0 first rfl, ?_⟩
      intro i artifact hget
      have hnext := hall (i + 1) artifact hget
      rwa [Nat.add_comm i, ← Nat.add_assoc] at hnext

/-- What a scan accepts has a name of a package, and a signature beside it. -/
theorem signed_of_accepts {n : Nat} {artifact : Text} (h : Accepts host n artifact) :
    packageName (LexicalPath.filename artifact) = true ∧
      (host.scan n).package.signatureExists = true ∧
      (host.scan n).package.signatureSymlink = false := by
  obtain ⟨result, hresult, hok⟩ := h
  have hinspected : (Package.inspect (host.scan n).package artifact
      options.toScanOptions).ok = true := by
    by_contra hnot
    rw [scan] at hresult
    split at hresult
    · cases hresult
      cases hok
    dsimp only at hresult
    split at hresult
    · cases hresult
    · rw [← Package.inspect, if_pos (by simpa using hnot)] at hresult
      cases hresult
      cases hok
  obtain ⟨info, entries, hadmitted⟩ := Package.admitted_of_inspect hinspected
  have hsignature := hadmitted.signature
  rw [Package.verifySignature, Package.ask] at hsignature
  dsimp only at hsignature
  split at hsignature
  · cases hsignature
  rename_i hpresent
  simp only [Bool.or_eq_true, Bool.not_eq_true', not_or, Bool.not_eq_false, Bool.not_eq_true]
    at hpresent
  exact ⟨hadmitted.suffix, hpresent.1, hpresent.2⟩

/-- A signature has no name of a package. -/
theorem not_packageName_sig (path : Text) :
    packageName (LexicalPath.filename (path ++ ".sig".toList)) = false := by
  rw [LexicalPath.filename_append (by decide), packageName, List.any_eq_false]
  intro ending hending hsuffix
  obtain ⟨front, hfront⟩ := List.isSuffixOf_iff_suffix.mp hsuffix
  have hlast := congrArg List.getLast? hfront
  rw [List.getLast?_append, List.getLast?_append] at hlast
  simp only [Package.packageSuffixes, List.mem_cons, List.not_mem_nil, or_false] at hending
  rcases hending with rfl | rfl | rfl | rfl | rfl | rfl | rfl | rfl
  all_goals exact absurd hlast (by simp)

/-- The command ends with zero exactly when the build is `ok` and every scan of what was built
is. Each artifact then has its signature beside it, and none of these signatures is among the
files that the build has handed over. -/
theorem packageBuild_accepts (h : packageBuild host file = some ended)
    (hrun : Package.Build.run host.build file (buildOptions options) = some outcome) :
    (ended.code = 0 ∨ ended.code = 1) ∧
      (ended.code = 0 ↔ outcome.result.ok = true ∧
        ∀ n artifact, outcome.result.artifacts[n]? = some artifact → Accepts host n artifact) ∧
      (ended.code = 0 → outcome.result.artifacts ≠ [] ∧
        ∀ n artifact, outcome.result.artifacts[n]? = some artifact →
          (host.scan n).package.signatureExists = true ∧
            artifact ++ ".sig".toList ∉ outcome.result.artifacts) := by
  rw [packageBuild, hrun] at h
  dsimp only at h
  split at h
  · rename_i hrejected
    cases h
    rw [Bool.not_eq_true'] at hrejected
    refine ⟨Or.inr rfl, iff_of_false one_ne_zero ?_, fun hzero => absurd hzero one_ne_zero⟩
    rintro ⟨hok, _⟩
    rw [hrejected] at hok
    cases hok
  rename_i hbuilt
  rw [Bool.not_eq_true', Bool.not_eq_false] at hbuilt
  obtain ⟨⟨packagesOk, lines⟩, hscanned, rfl⟩ := Option.map_eq_some_iff.mp h
  have hok := scanArtifacts_ok hscanned
  simp only [Nat.zero_add] at hok
  have hcode : (if packagesOk then (0 : Int) else 1) = 0 ↔ packagesOk = true := by
    cases packagesOk with
    | true => decide
    | false => decide
  refine ⟨?_, ?_, ?_⟩
  · cases packagesOk with
    | true => exact Or.inl rfl
    | false => exact Or.inr rfl
  · rw [hcode, hok]
    exact (and_iff_right hbuilt).symm
  · intro hzero
    have hall := hok.mp (hcode.mp hzero)
    constructor
    · rcases Package.Build.run_cases hrun with ⟨_, hnot⟩ | ⟨result, config, _, hcollects⟩
      · rw [hbuilt] at hnot
        cases hnot
      · rw [hcollects.artifacts]
        exact fun hnil => (hcollects.ok.mp hbuilt).1 (List.map_eq_nil_iff.mp hnil)
    · intro n artifact hget
      refine ⟨(signed_of_accepts (hall n artifact hget)).2.1, ?_⟩
      intro hhanded
      obtain ⟨m, hm⟩ := List.mem_iff_getElem?.mp hhanded
      have hname := (signed_of_accepts (hall m _ hm)).1
      rw [not_packageName_sig] at hname
      cases hname

end Command

/-- A package is built, and its signature was there before. -/
def signedHost : PackageBuildHost {} where
  build :=
    { capture := fun _ _ _ => { status := 0 }
      built := [{ name := "a-1.pkg.tar.zst".toList }]
      distinct := List.nodup_singleton _ }
  scan _ := Package.vettedHost

theorem packageBuild_accepts_signed : ∃ (ended : Ended) (outcome : Outcome),
    packageBuild signedHost (Package.Build.pkgbuild "a.tar".toList) = some ended ∧
      ended.code = 0 ∧ outcome.result.ok = true ∧
      "/tmp/execell-package/build-artifacts/a-1.pkg.tar.zst.sig".toList ∉
        outcome.result.artifacts := by
  have hcode : (packageBuild signedHost (Package.Build.pkgbuild "a.tar".toList)).map Ended.code =
      some 0 := by decide +kernel
  obtain ⟨ended, hended, hzero⟩ := Option.map_eq_some_iff.mp hcode
  have hartifacts : (Package.Build.run signedHost.build (Package.Build.pkgbuild "a.tar".toList)
      (buildOptions {})).map (fun outcome => outcome.result.artifacts) =
      some ["/tmp/execell-package/build-artifacts/a-1.pkg.tar.zst".toList] := by decide +kernel
  obtain ⟨outcome, hrun, hnames⟩ := Option.map_eq_some_iff.mp hartifacts
  obtain ⟨_, hiff, hsigned⟩ := packageBuild_accepts hended hrun
  refine ⟨ended, outcome, hended, hzero, (hiff.mp hzero).1, ?_⟩
  exact ((hsigned hzero).2 0 "/tmp/execell-package/build-artifacts/a-1.pkg.tar.zst".toList
    (by rw [hnames]; rfl)).2

end ExeCell.Cli
