import ExeCell.Package.Staging

/-!
# The filesystem diff

The installation of a package between the two snapshots of `scan`, on a file system: the
first snapshot, the directories and the package that `scan` itself puts into the root, what
the install does, and the second snapshot. The six lists of the result are compared with
what the install has changed, from the tree that it finds to the tree that it leaves.

`exact_iff_attributable` says when the lists are just that. They never are when the package
was not there before the scan (`not_attributable_of_fresh`).
-/

namespace ExeCell.Package.FileDiff

open LexicalPath (Place)
open Listing (Entry)
open OrderedMap (Ordered mem_iff_lookup)
open Sandbox (Captured)

/-! ## The six lists -/

/-- The kinds of change that have a list. -/
inductive Change where
  | created
  | deleted
  | modified
  | modeChanged
  | ownershipChanged
  | hashChanged
  deriving DecidableEq, Repr

/-- The list of a result for the changes of a kind. -/
def listed (result : Result) : Change → List Text
  | .created => result.created
  | .deleted => result.deleted
  | .modified => result.modified
  | .modeChanged => result.modeChanged
  | .ownershipChanged => result.ownershipChanged
  | .hashChanged => result.hashChanged

/-- The recorded attribute that is different after a change of this kind. -/
def Change.attribute (change : Change) (old new : FileState) : Bool :=
  match change with
  | .created | .deleted => false
  | .modified => old.size ≠ new.size
  | .modeChanged => old.mode ≠ new.mode
  | .ownershipChanged => old.uid ≠ new.uid || old.gid ≠ new.gid
  | .hashChanged => old.hash ≠ new.hash

/-- What is recorded of a path has changed in this way. -/
def differs (old new : Option FileState) (change : Change) : Bool :=
  match old, new with
  | none, none => false
  | none, some _ => change = .created
  | some _, none => change = .deleted
  | some old, some new => change.attribute old new

/-- The lists that the two loops make of two snapshots. -/
def compared (before after : Snapshot) : Change → List Text
  | .created => missingPaths after before
  | .deleted => missingPaths before after
  | .modified => changedPaths before after fun old new => Change.modified.attribute old new
  | .modeChanged => changedPaths before after fun old new => Change.modeChanged.attribute old new
  | .ownershipChanged =>
    changedPaths before after fun old new => Change.ownershipChanged.attribute old new
  | .hashChanged => changedPaths before after fun old new => Change.hashChanged.attribute old new

theorem listed_compare (result : Result) (before after : Snapshot) (change : Change) :
    listed (result.compare before after) change = compared before after change := by
  cases change <;> rfl

section Compared

variable {before after : Snapshot} {path : Text} {change : Change}

theorem mem_missingPaths (hafter : Ordered after) :
    path ∈ missingPaths after before ↔
      (∃ state, after.find path = some state) ∧ before.find path = none := by
  rw [missingPaths, List.mem_map]
  constructor
  · rintro ⟨⟨path, state⟩, hmem, rfl⟩
    rw [List.mem_filter, Option.isNone_iff_eq_none] at hmem
    exact ⟨⟨state, (mem_iff_lookup hafter.nodup).mp hmem.1⟩, hmem.2⟩
  · rintro ⟨⟨state, hstate⟩, hnone⟩
    refine ⟨(path, state), ?_, rfl⟩
    rw [List.mem_filter, Option.isNone_iff_eq_none]
    exact ⟨(mem_iff_lookup hafter.nodup).mpr hstate, hnone⟩

theorem mem_changedPaths (hafter : Ordered after) (f : FileState → FileState → Bool) :
    path ∈ changedPaths before after f ↔
      ∃ old new, before.find path = some old ∧ after.find path = some new ∧ f old new = true := by
  rw [changedPaths, List.mem_map]
  constructor
  · rintro ⟨⟨path, new⟩, hmem, rfl⟩
    rw [List.mem_filter, Option.any_eq_true] at hmem
    obtain ⟨hnew, old, hold, hdiffers⟩ := hmem
    exact ⟨old, new, hold, (mem_iff_lookup hafter.nodup).mp hnew, hdiffers⟩
  · rintro ⟨old, new, hold, hnew, hdiffers⟩
    refine ⟨(path, new), ?_, rfl⟩
    rw [List.mem_filter, Option.any_eq_true]
    exact ⟨(mem_iff_lookup hafter.nodup).mpr hnew, old, hold, hdiffers⟩

/-- The lists are those of the differences between the two snapshots. -/
theorem mem_compared (hbefore : Ordered before) (hafter : Ordered after) :
    path ∈ compared before after change ↔
      differs (before.find path) (after.find path) change = true := by
  cases change with
  | created =>
    rw [compared, mem_missingPaths hafter]
    cases before.find path <;> cases after.find path <;> simp [differs, Change.attribute]
  | deleted =>
    rw [compared, mem_missingPaths hbefore]
    cases before.find path <;> cases after.find path <;> simp [differs, Change.attribute]
  | _ =>
    rw [compared, mem_changedPaths hafter]
    cases before.find path <;> cases after.find path <;> simp [differs]

theorem sorted_compared (hbefore : Ordered before) (hafter : Ordered after) (change : Change) :
    (compared before after change).Pairwise (· < ·) := by
  cases change with
  | deleted => exact hbefore.pairwise_keys _
  | _ => exact hafter.pairwise_keys _

/-- What is created has not changed in another way. -/
theorem eq_created_of_differs {old new : Option FileState} {other : Change}
    (hcreated : differs old new .created = true) (h : differs old new other = true) :
    other = .created := by
  cases old with
  | none =>
    cases new with
    | none => cases h
    | some new => exact of_decide_eq_true h
  | some old =>
    cases new with
    | none => cases hcreated
    | some new => cases hcreated

theorem differs_self (state : Option FileState) (change : Change) :
    differs state state change = false := by
  cases state with
  | none => rfl
  | some state => cases change <;> simp [differs, Change.attribute]

/-- The attributes are all that is recorded. -/
theorem attribute_eq_false_iff {old new : FileState} :
    (∀ change : Change, change.attribute old new = false) ↔ old = new := by
  constructor
  · intro h
    have hsize : old.size = new.size := by simpa [Change.attribute] using h .modified
    have hmode : old.mode = new.mode := by simpa [Change.attribute] using h .modeChanged
    have howner : old.uid = new.uid ∧ old.gid = new.gid := by
      simpa [Change.attribute] using h .ownershipChanged
    have hhash : old.hash = new.hash := by simpa [Change.attribute] using h .hashChanged
    cases old
    cases new
    simp only at hsize hmode howner hhash
    rw [hsize, hmode, howner.1, howner.2, hhash]
  · rintro rfl change
    cases change <;> simp [Change.attribute]

theorem differs_eq_false_iff {old new : Option FileState} :
    (∀ change, differs old new change = false) ↔ old = new := by
  cases old with
  | none =>
    cases new with
    | none => exact iff_of_true (fun _ => rfl) rfl
    | some new => exact iff_of_false (fun h => absurd (h .created) (by simp [differs])) nofun
  | some old =>
    cases new with
    | none => exact iff_of_false (fun h => absurd (h .deleted) (by simp [differs])) nofun
    | some new => exact attribute_eq_false_iff.trans Option.some_inj.symm

/-- Two changes are of the same kinds, by what there is before and behind the second. -/
theorem differs_same_iff {first last old new : Option FileState} :
    (∀ change, differs first last change = differs old new change) ↔
      match old, new with
      | none, none => first = last
      | none, some _ => first = none ∧ last ≠ none
      | some _, none => first ≠ none ∧ last = none
      | some old, some new =>
        first = none ∧ last = none ∧ old = new ∨
          ∃ before after, first = some before ∧ last = some after ∧
            ∀ change : Change, change.attribute before after = change.attribute old new := by
  have hcreated : ∀ {old new : Option FileState},
      differs old new .created = true ↔ old = none ∧ new ≠ none := by
    intro old new
    cases old <;> cases new <;> simp [differs, Change.attribute]
  have hdeleted : ∀ {old new : Option FileState},
      differs old new .deleted = true ↔ old ≠ none ∧ new = none := by
    intro old new
    cases old <;> cases new <;> simp [differs, Change.attribute]
  cases old with
  | none =>
    cases new with
    | none => exact differs_eq_false_iff
    | some new =>
      constructor
      · intro h
        rw [← hcreated, h]
        rfl
      · rintro ⟨rfl, hlast⟩ change
        obtain ⟨last, rfl⟩ := Option.ne_none_iff_exists'.mp hlast
        rfl
  | some old =>
    cases new with
    | none =>
      constructor
      · intro h
        rw [← hdeleted, h]
        rfl
      · rintro ⟨hfirst, rfl⟩ change
        obtain ⟨first, rfl⟩ := Option.ne_none_iff_exists'.mp hfirst
        rfl
    | some new =>
      dsimp only
      cases first with
      | none =>
        cases last with
        | none =>
          have hnone : (∀ change, differs none none change = differs (some old) (some new) change) ↔
              ∀ change : Change, change.attribute old new = false :=
            forall_congr' fun _ => eq_comm
          rw [hnone, attribute_eq_false_iff]
          simp
        | some last =>
          refine iff_of_false (fun h => absurd (h .created) ?_) (by simp)
          simp [differs, Change.attribute]
      | some first =>
        cases last with
        | none =>
          refine iff_of_false (fun h => absurd (h .deleted) ?_) (by simp)
          simp [differs, Change.attribute]
        | some last => simp [differs]

/-- What was there and what is there instead differ in the same way from what comes after, when
each attribute does. -/
theorem differs_eq_iff {old : Option FileState} {staged : FileState} {new : Option FileState} :
    (∀ change, differs old new change = differs (some staged) new change) ↔
      ∃ state, old = some state ∧ ∀ final, new = some final →
        ∀ change : Change, change.attribute state final = change.attribute staged final := by
  constructor
  · intro h
    cases old with
    | none =>
      cases new with
      | none => exact absurd (h .deleted) Bool.false_ne_true
      | some final => exact absurd (h .created).symm Bool.false_ne_true
    | some state =>
      refine ⟨state, rfl, ?_⟩
      rintro final rfl change
      exact h change
  · rintro ⟨state, rfl, h⟩ change
    cases new with
    | none => rfl
    | some final => exact h final rfl change

end Compared

/-! ## The installation -/

/-- A scan with the file system in which it installs the package. -/
structure InstallHost (options : PackageOptions) extends ScanHost options where
  /-- The file system behind the making of the session. -/
  files : FileSystem
  session : Root
  /-- The directories that the two calls of `create_directories` make. -/
  directories : List (Place × Text) := []
  /-- The content of the package. -/
  data : Text := []
  writing : Writing := {}
  /-- What the sandboxed install does. -/
  effect : FileSystem → FileSystem

variable {options : PackageOptions}

/-- The path of the staged package below the root. -/
def stagedPath (package : Text) : Text :=
  "var/cache/pacman/pkg/".toList ++ LexicalPath.filename package

/-- The files behind the call of `write_root_file`, if it returns true. -/
def InstallHost.stage (host : InstallHost options) (package : Text) : Option FileSystem :=
  let files := host.directories.foldl (fun files place => files.makeDirectory place.1 place.2)
    host.files
  files.writeRootFile host.session host.writing (stagedPath package) host.data

/-- The files that the install finds. -/
def InstallHost.staged (host : InstallHost options) (package : Text) : FileSystem :=
  (host.stage package).getD host.files

/-- The files that the install leaves. -/
def InstallHost.installed (host : InstallHost options) (package : Text) : FileSystem :=
  host.effect (host.staged package)

/-- The scan with the answers that the file system gives. -/
def InstallHost.scanHost (host : InstallHost options) (package : Text) : ScanHost options :=
  let pacman := host.files.exists host.session ["usr".toList, "bin".toList, "pacman".toList]
  { host.toScanHost with
    before := host.files.snapshot host.session
    pacman := pacman
    packageStaged := (host.stage package).isSome
    after :=
      if pacman = some true then (host.installed package).snapshot host.session
      else host.files.snapshot host.session }

/-- The end of the install among these steps, if there is one. -/
def installOf (host : PackageHost) (steps : List ScanStep) : Option Captured :=
  steps.findSome? fun step =>
    match step with
    | .install command config => some (host.capture command config)
    | _ => none

/-- The end of the install, if the scan comes to it. -/
def InstallHost.install (host : InstallHost options) (package : Text) : Option Captured :=
  installOf host.package (scan (host.scanHost package) package).steps

/-- The install has changed what is recorded of the path in this way. -/
def InstallHost.changes (host : InstallHost options) (package path : Text) (change : Change) :
    Bool :=
  match host.install package with
  | none => false
  | some _ =>
    differs ((host.staged package).record host.session path)
      ((host.installed package).record host.session path) change

/-- The lists of the result are what the install has changed, and nothing else. -/
structure InstallHost.Exact (host : InstallHost options) (package : Text) (result : Result) :
    Prop where
  exact : ∀ change path, path ∈ listed result change ↔ host.changes package path change = true
  /-- No path is twice in a list. -/
  sorted : ∀ change, (listed result change).Pairwise (· < ·)
  disjoint : ∀ change path, change ≠ .created → path ∈ result.created →
    path ∉ listed result change
  /-- The staged package is not reported for being staged. -/
  unreported : (∀ change, host.changes package (stagedPath package) change = false) →
    ∀ change, stagedPath package ∉ listed result change

/-- One of the two snapshots takes something else under the path, or skips what is there. -/
def InstallHost.Astray (host : InstallHost options) (package path : Text) : Prop :=
  host.files.Astray host.session path ∨ (host.installed package).Astray host.session path

/-- The path is that of the staged package, or another name of its file. -/
def InstallHost.Written (host : InstallHost options) (package path : Text) : Prop :=
  (host.staged package).Shares host.session (stagedPath package) path

/-- The entries that bear an astray path before the scan and behind the install are as different
as what is at the path in the tree that the install finds and in the one it leaves. -/
def InstallHost.Borne (host : InstallHost options) (package path : Text) : Prop :=
  let before := host.files
  let after := host.installed package
  let Unborne (files : FileSystem) : Prop := ∀ entry, ¬ files.Bears host.session path entry
  match (host.staged package).record host.session path, after.record host.session path with
  -- neither has a file or a link at the path
  | none, none =>
    Unborne before ∧ Unborne after ∨
      ∃ first last, before.Bears host.session path first ∧ after.Bears host.session path last ∧
        before.stateOf first.node = after.stateOf last.node
  -- the install makes one, or removes it
  | none, some _ => Unborne before ∧ ∃ last, after.Bears host.session path last
  | some _, none => (∃ first, before.Bears host.session path first) ∧ Unborne after
  -- there is one in both
  | some old, some new =>
    Unborne before ∧ Unborne after ∧ old = new ∨
      ∃ first last old' new', before.Bears host.session path first ∧
        after.Bears host.session path last ∧ before.stateOf first.node = some old' ∧
        after.stateOf last.node = some new' ∧
        ∀ change : Change, change.attribute old' new' = change.attribute old new

/-- The lists of an install that has succeeded can be exact at this path: where a snapshot
goes astray, what bears the path makes up for it; and the staged package has taken the place
of a file that differs in the same attributes from the one behind the install. -/
structure InstallHost.Unblurred (host : InstallHost options) (package path : Text) : Prop where
  borne : host.Astray package path → host.Borne package path
  written : ¬ host.Astray package path → host.Written package path →
    ∃ old, host.files.record host.session path = some old ∧
      ∀ staged, (host.staged package).record host.session path = some staged →
      ∀ final, (host.installed package).record host.session path = some final →
        ∀ change : Change, change.attribute old final = change.attribute staged final

/-- If the install is run, it fails and leaves the files and links that it has found, or it
succeeds and no path is blurred. -/
def InstallHost.Attributable (host : InstallHost options) (package : Text) : Prop :=
  ∀ installed, host.install package = some installed →
    if installed.timedOut = true ∨ installed.status ≠ 0 then
      (host.staged package).KeptIn (host.installed package) host.session ∧
        (host.installed package).KeptIn (host.staged package) host.session
    else ∀ path, host.Unblurred package path

/-! ## What a scan puts into the lists -/

/-- The lists are empty. -/
def Silent (result : Result) : Prop := ∀ change, listed result change = []

/-- The lists are those of the two snapshots. -/
def Compares (host : ScanHost options) (pacman : Bool) (result : Result) : Prop :=
  host.pacman = some pacman ∧ ∃ before after, host.before = some before ∧
    host.after = some after ∧ ∀ change, listed result change = compared before after change

/-- The lists of a run, by its install. -/
def Reports (host : ScanHost options) (run : ScanRun) : Prop :=
  ∀ result, run.result = some result →
    match installOf host.package run.steps with
    | none => Silent result ∨ Compares host false result
    | some installed =>
      if installed.timedOut = true ∨ installed.status ≠ 0 then Silent result
      else Compares host true result

section Reports

variable {host : ScanHost options} {package : Text} {result : Result} {run : ScanRun}

theorem installOf_append {front steps : List ScanStep} (h : ∀ step ∈ front, ¬ step.Executes) :
    installOf host.package (front ++ steps) = installOf host.package steps := by
  rw [installOf, List.findSome?_append, List.findSome?_eq_none_iff.mpr, Option.none_or, installOf]
  intro step hstep
  cases step with
  | install command config => exact absurd trivial (h _ hstep)
  | _ => rfl

theorem reports_silent (h : Silent result) : Reports host { result := some result } := by
  intro result' hresult
  obtain rfl := Option.some.inj hresult
  exact Or.inl h

theorem reports_throw (steps : List ScanStep) : Reports host { steps := steps, result := none } :=
  nofun

theorem reports_after {front : List ScanStep} (hfront : ∀ step ∈ front, ¬ step.Executes)
    (h : Reports host run) : Reports host (run.after front) := by
  intro result hresult
  rw [Gate.Run.after, installOf_append hfront]
  exact h result hresult

theorem installOf_observeStage (root : Text) (before : Snapshot) :
    installOf host.package (observeStage host root before result).steps = none := by
  rw [observeStage]
  split
  · rfl
  split
  · rfl
  dsimp only
  split
  · rfl
  split
  · rfl
  · rfl

theorem listed_concludeScan (merged : Observed) (change : Change) :
    listed (concludeScan host result merged) change = listed result change := rfl

/-- A result that comes from the second snapshot on has the lists of the two. -/
theorem listed_observeStage {root : Text} {before : Snapshot} {final : Result}
    (h : (observeStage host root before result).result = some final) :
    ∃ after, host.after = some after ∧
      ∀ change, listed final change = compared before after change := by
  rw [observeStage] at h
  split at h
  · cases h
  rename_i after hafter
  split at h
  · cases h
  dsimp only at h
  split at h
  · cases h
  split at h
  · cases h
  obtain rfl := Option.some.inj h
  refine ⟨after, hafter, ?_⟩
  intro change
  rw [listed_concludeScan, ← listed_compare result]
  rfl

theorem reports_installStage {session : Rootfs.Session} (h : Silent result) :
    Reports host (installStage host package session result) := by
  rw [installStage.eq_def]
  dsimp only
  split
  · exact reports_throw []
  · exact reports_throw []
  · rename_i before hbefore hpacman
    intro final hfinal
    obtain ⟨after, hafter, hlists⟩ := listed_observeStage hfinal
    rw [installOf_observeStage]
    exact Or.inr ⟨hpacman, before, after, hbefore, hafter, hlists⟩
  · rename_i before hbefore hpacman
    split
    · exact reports_silent h
    split
    · exact reports_silent h
    intro final hfinal
    show if _ then _ else _
    split at hfinal
    · rename_i htime
      rw [if_pos (Or.inl htime)]
      obtain rfl := Option.some.inj hfinal
      exact h
    split at hfinal
    · rename_i hstatus
      rw [if_pos (Or.inr hstatus)]
      obtain rfl := Option.some.inj hfinal
      exact h
    · rename_i htime hstatus
      rw [if_neg (not_or.mpr ⟨htime, hstatus⟩)]
      obtain ⟨after, hafter, hlists⟩ := listed_observeStage hfinal
      exact ⟨hpacman, before, after, hbefore, hafter, hlists⟩

theorem reports_sessionStage (h : Silent result) :
    Reports host (sessionStage host package result) := by
  rw [sessionStage]
  split
  · exact reports_silent h
  dsimp only
  split
  · exact reports_silent h
  split
  · exact reports_silent h
  split
  · exact reports_silent h
  split
  · exact reports_throw []
  · rename_i message _
    show Reports host
      (Gate.Run.after [.createSession options.rootfs _ (.error message)] { result := some _ })
    exact reports_after (List.forall_mem_singleton.mpr id) (reports_silent h)
  · apply reports_after (List.forall_mem_singleton.mpr id)
    split
    · exact reports_silent h
    · exact reports_installStage h

theorem reports_mirrorStage (h : Silent result) :
    Reports host (mirrorStage host package result) := by
  rw [mirrorStage]
  split
  · exact reports_silent h
  apply reports_after fun _ => not_executes_mirrorSteps
  split
  · exact reports_silent h
  · exact reports_sessionStage h

theorem reports_scan (host : ScanHost options) (package : Text) :
    Reports host (scan host package) := by
  rw [scan]
  split
  · exact reports_silent (by intro change; cases change <;> rfl)
  dsimp only
  split
  · exact reports_throw _
  apply reports_after not_executes_inspected
  split
  · exact reports_silent (by intro change; cases change <;> rfl)
  · exact reports_mirrorStage (by intro change; cases change <;> rfl)

end Reports

/-! ## When the lists are exact -/

section Exact

variable {host : InstallHost options} {package path : Text} {result : Result}

theorem record_makeDirectories {root : Root} (places : List (Place × Text)) (files : FileSystem) :
    (places.foldl (fun files place => files.makeDirectory place.1 place.2) files).record root path =
      files.record root path := by
  induction places generalizing files with
  | nil => rfl
  | cons place places ih =>
    rw [List.foldl_cons, ih]
    exact record_makeDirectory place.1 place.2

/-- What `scan` writes into the root changes the records of the staged package only. -/
theorem record_staged (h : ¬ host.Written package path) :
    (host.staged package).record host.session path = host.files.record host.session path := by
  rw [InstallHost.Written] at h
  rw [InstallHost.staged] at h ⊢
  cases hstage : host.stage package with
  | none => rfl
  | some staged =>
    rw [hstage] at h
    rw [Option.getD_some, record_writeRootFile hstage h]
    exact record_makeDirectories host.directories host.files

/-- The lists are exact when what is in them is what has changed. -/
theorem exact_iff_of_mem {reported : Text → Change → Bool}
    (hmem : ∀ change path, path ∈ listed result change ↔ reported path change = true)
    (hsorted : ∀ change, (listed result change).Pairwise (· < ·))
    (hcreated : ∀ path change, reported path .created = true → reported path change = true →
      change = .created) :
    host.Exact package result ↔
      ∀ path change, reported path change = host.changes package path change := by
  constructor
  · intro h path change
    rw [Bool.eq_iff_iff, ← hmem]
    exact h.exact change path
  · intro h
    have hexact : ∀ change path, path ∈ listed result change ↔
        host.changes package path change = true := by
      intro change path
      rw [hmem, h]
    refine ⟨hexact, hsorted, ?_, ?_⟩
    · intro change path hne hpath hother
      have hfirst := (hmem .created path).mp hpath
      exact hne (hcreated path change hfirst ((hmem change path).mp hother))
    · intro hsame change hreported
      rw [hexact, hsame] at hreported
      cases hreported

theorem exact_iff_of_silent (h : Silent result) :
    host.Exact package result ↔ ∀ path change, host.changes package path change = false := by
  have hnone : ∀ change path, path ∉ listed result change := by
    intro change path
    rw [h change]
    exact List.not_mem_nil
  simp only [eq_comm (b := false)]
  apply exact_iff_of_mem
  · intro change path
    exact iff_of_false (hnone change path) Bool.false_ne_true
  · intro change
    rw [h change]
    exact List.Pairwise.nil
  · intro path change hcreated
    cases hcreated

/-- What a result says that has the lists of two snapshots. -/
theorem exact_iff_of_compared {before after : FileSystem} {first second : Snapshot}
    (hbefore : before.snapshot host.session = some first)
    (hafter : after.snapshot host.session = some second)
    (hlists : ∀ change, listed result change = compared first second change) :
    host.Exact package result ↔ ∀ path change,
      differs (before.shown host.session path) (after.shown host.session path) change =
        host.changes package path change := by
  obtain ⟨hfirst, -, hfind⟩ := snapshot_eq_some hbefore
  obtain ⟨hsecond, -, hfind'⟩ := snapshot_eq_some hafter
  apply exact_iff_of_mem
  · intro change path
    rw [hlists, mem_compared hfirst hsecond, hfind, hfind']
  · intro change
    rw [hlists]
    exact sorted_compared hfirst hsecond change
  · intro path change
    exact eq_created_of_differs

/-- The two snapshots differ at a path as the tree that the install finds and the one it leaves,
when the entries that bear the path do. -/
theorem borne_iff : (∀ change, differs (host.files.shown host.session path)
        ((host.installed package).shown host.session path) change =
      differs ((host.staged package).record host.session path)
        ((host.installed package).record host.session path) change) ↔
    host.Borne package path := by
  have hsome : ∀ {files : FileSystem}, files.shown host.session path ≠ none ↔
      ∃ entry, files.Bears host.session path entry := by
    intro files
    rw [Ne, shown_eq_none_iff, not_forall_not]
  rw [differs_same_iff, InstallHost.Borne]
  cases (host.staged package).record host.session path with
  | none =>
    cases (host.installed package).record host.session path with
    | none =>
      dsimp only
      constructor
      · intro hsame
        cases hshown : host.files.shown host.session path with
        | none =>
          rw [hshown] at hsame
          exact .inl ⟨shown_eq_none_iff.mp hshown, shown_eq_none_iff.mp hsame.symm⟩
        | some state =>
          rw [hshown] at hsame
          obtain ⟨first, hfirst, hstate⟩ := bears_of_shown hshown
          obtain ⟨last, hlast, hstate'⟩ := bears_of_shown hsame.symm
          exact .inr ⟨first, last, hfirst, hlast, hstate.trans hstate'.symm⟩
      · rintro (⟨hbefore, hafter⟩ | ⟨first, last, hfirst, hlast, hsame⟩)
        · rw [shown_eq_none_iff.mpr hbefore, shown_eq_none_iff.mpr hafter]
        · rw [shown_of_bears hfirst, shown_of_bears hlast, hsame]
    | some new =>
      dsimp only
      rw [shown_eq_none_iff, hsome]
  | some old =>
    cases (host.installed package).record host.session path with
    | none =>
      dsimp only
      rw [shown_eq_none_iff, hsome]
    | some new =>
      dsimp only
      rw [shown_eq_none_iff, shown_eq_none_iff]
      refine or_congr_right ?_
      constructor
      · rintro ⟨old', new', hold, hnew, hsame⟩
        obtain ⟨first, hfirst, hstate⟩ := bears_of_shown hold
        obtain ⟨last, hlast, hstate'⟩ := bears_of_shown hnew
        exact ⟨first, last, old', new', hfirst, hlast, hstate, hstate', hsame⟩
      · rintro ⟨first, last, old', new', hfirst, hlast, hstate, hstate', hsame⟩
        exact ⟨old', new', (shown_of_bears hfirst).trans hstate,
          (shown_of_bears hlast).trans hstate', hsame⟩

/-- Where the two snapshots differ as the install has made them differ. -/
theorem unblurred_iff {first second : Snapshot} {captured : Captured}
    (hinstall : host.install package = some captured)
    (hbefore : host.files.snapshot host.session = some first)
    (hafter : (host.installed package).snapshot host.session = some second) :
    (∀ change, differs (host.files.shown host.session path)
        ((host.installed package).shown host.session path) change =
      host.changes package path change) ↔ host.Unblurred package path := by
  have hchanges : ∀ change, host.changes package path change =
      differs ((host.staged package).record host.session path)
        ((host.installed package).record host.session path) change := by
    intro change
    rw [InstallHost.changes, hinstall]
  simp only [hchanges]
  by_cases hastray : host.Astray package path
  · rw [borne_iff]
    constructor
    · intro h
      exact ⟨fun _ => h, fun hnot => absurd hastray hnot⟩
    · intro h
      exact h.borne hastray
  obtain ⟨hfirst, hsecond⟩ := not_or.mp hastray
  rw [shown_eq_record hbefore hfirst, shown_eq_record hafter hsecond]
  by_cases hwritten : host.Written package path
  · obtain ⟨staged, hstaged⟩ := exists_record_of_shares hwritten
    rw [hstaged, differs_eq_iff]
    constructor
    · rintro ⟨old, hold, hsame⟩
      refine ⟨fun h => absurd h hastray, ?_⟩
      intro _ _
      refine ⟨old, hold, ?_⟩
      intro staged' hstaged'
      obtain rfl := Option.some.inj (hstaged.symm.trans hstaged')
      exact hsame
    · intro h
      obtain ⟨old, hold, hsame⟩ := h.written hastray hwritten
      exact ⟨old, hold, hsame staged hstaged⟩
  · rw [record_staged hwritten]
    refine iff_of_true (fun _ => rfl) ?_
    exact ⟨fun h => absurd h hastray, fun _ h => absurd h hwritten⟩

/-- A scan that runs no install has nothing in its lists. -/
theorem exact_of_no_install (h : (scan (host.scanHost package) package).result = some result)
    (hinstall : host.install package = none) : host.Exact package result := by
  have hreports := reports_scan (host.scanHost package) package result h
  change match host.install package with | none => _ | some _ => _ at hreports
  rw [hinstall] at hreports
  have hchanges : ∀ path change, host.changes package path change = false := by
    intro path change
    rw [InstallHost.changes, hinstall]
  obtain hsilent | ⟨hpacman, before, after, hbefore, hafter, hlists⟩ := hreports
  · exact (exact_iff_of_silent hsilent).mpr hchanges
  · -- without `pacman` both snapshots are of the same files
    have hpacman' : ¬ (host.scanHost package).pacman = some true := by
      rw [hpacman]
      exact nofun
    have hsecond : host.files.snapshot host.session = some after :=
      (if_neg hpacman').symm.trans hafter
    apply (exact_iff_of_compared hbefore hsecond hlists).mpr
    intro path change
    rw [differs_self, hchanges]

theorem exact_iff_of_install {captured : Captured}
    (h : (scan (host.scanHost package) package).result = some result)
    (hinstall : host.install package = some captured) :
    host.Exact package result ↔
      if captured.timedOut = true ∨ captured.status ≠ 0 then
        (host.staged package).KeptIn (host.installed package) host.session ∧
          (host.installed package).KeptIn (host.staged package) host.session
      else ∀ path, host.Unblurred package path := by
  have hreports := reports_scan (host.scanHost package) package result h
  change match host.install package with | none => _ | some _ => _ at hreports
  rw [hinstall] at hreports
  change if _ then _ else _ at hreports
  split at hreports
  · rename_i hfailed
    rw [if_pos hfailed, exact_iff_of_silent hreports, ← record_eq_iff]
    refine forall_congr' fun path => ?_
    rw [← differs_eq_false_iff]
    refine forall_congr' fun change => ?_
    rw [InstallHost.changes, hinstall]
  · rename_i hsucceeded
    obtain ⟨hpacman, before, after, hbefore, hafter, hlists⟩ := hreports
    have hsecond : (host.installed package).snapshot host.session = some after :=
      (if_pos hpacman).symm.trans hafter
    rw [if_neg hsucceeded, exact_iff_of_compared hbefore hsecond hlists]
    apply forall_congr'
    intro path
    exact unblurred_iff hinstall hbefore hsecond

/-- A scan that returns reports just what the install has changed, if and only if no snapshot is
astray and no staged package in the way. -/
theorem exact_iff_attributable (host : InstallHost options) (package : Text) {result : Result}
    (h : (scan (host.scanHost package) package).result = some result) :
    host.Exact package result ↔ host.Attributable package := by
  cases hinstall : host.install package with
  | none =>
    apply iff_of_true (exact_of_no_install h hinstall)
    intro captured hsome
    rw [hinstall] at hsome
    cases hsome
  | some captured =>
    rw [exact_iff_of_install h hinstall, InstallHost.Attributable, hinstall]
    simp only [Option.some.injEq, forall_eq']

/-- A package that has been staged where nothing was is in the way. -/
theorem not_attributable_of_fresh {captured : Captured}
    (hinstall : host.install package = some captured)
    (hsucceeded : ¬ (captured.timedOut = true ∨ captured.status ≠ 0))
    (hastray : ¬ host.Astray package (stagedPath package))
    (hwritten : host.Written package (stagedPath package))
    (hfresh : host.files.record host.session (stagedPath package) = none) :
    ¬ host.Attributable package := by
  intro h
  have hall := h captured hinstall
  rw [if_neg hsucceeded] at hall
  obtain ⟨old, hold, -⟩ := (hall (stagedPath package)).written hastray hwritten
  rw [hfresh] at hold
  cases hold

end Exact

/-- A directory that can be opened and searched. -/
def openDirectory (parent : List String) (name : String) : Entry Text Node where
  parent := parent.map String.toList
  name := name.toList
  node := .directory true true

/-- A root with `pacman` in it, and with a link to its directory. -/
def pacmanEntries : List (Entry Text Node) :=
  [openDirectory [] "root",
    { parent := ["root".toList], name := "bin".toList
      node := .symlink 0o777 "usr/bin".toList },
    openDirectory ["root"] "usr", openDirectory ["root", "usr"] "bin",
    { parent := ["root".toList, "usr".toList, "bin".toList], name := "pacman".toList
      node := .file 0 },
    openDirectory ["root"] "var", openDirectory ["root", "var"] "cache",
    openDirectory ["root", "var", "cache"] "pacman",
    openDirectory ["root", "var", "cache", "pacman"] "pkg"]

def pacmanFiles : FileSystem where
  entries := pacmanEntries
  next := 1
  distinct := by decide +kernel
  named := by decide +kernel
  rooted := by decide +kernel
  numbered := by simp [pacmanEntries, openDirectory]

/-- The root in which the package has been staged before. -/
def stagedBefore : FileSystem :=
  pacmanFiles.createFile
    ["root".toList, "var".toList, "cache".toList, "pacman".toList, "pkg".toList] packagePath {}
    (by decide +kernel)

/-- An install that changes nothing. -/
def idleHost (files : FileSystem) : InstallHost {} where
  package := packageHost []
  turns := []
  calls _ task := Call.returning _ {} task
  files := files
  session := { place := ["root".toList] }
  effect := id

theorem idle_changes (files : FileSystem) (path : Text) (change : Change) :
    (idleHost files).changes packagePath path change = false := by
  rw [InstallHost.changes]
  split
  · rfl
  · exact differs_self _ change

/-- The same package is staged again. -/
theorem staged_stagedBefore : (idleHost stagedBefore).staged packagePath = stagedBefore := by
  have hnode : stagedBefore.node ((idleHost stagedBefore).session.place ++
      (stagedPath packagePath).splitOn '/') = some (.file 1) := by
    decide +kernel
  have hstage : (idleHost stagedBefore).stage packagePath = some stagedBefore := by
    rw [InstallHost.stage]
    show stagedBefore.writeRootFile (idleHost stagedBefore).session {} (stagedPath packagePath) [] =
      some stagedBefore
    rw [FileSystem.writeRootFile, if_neg (by decide +kernel), hnode]
    show some (stagedBefore.rewrite 1 (stagedBefore.inodes 1)) = _
    rw [FileSystem.rewrite, Function.update_eq_self]
  rw [InstallHost.staged, hstage]
  rfl

/-- When the package was there before, such an install is reported as it is. -/
theorem exact_staged_before :
    ∃ result, (scan ((idleHost stagedBefore).scanHost packagePath) packagePath).result =
        some result ∧ (idleHost stagedBefore).Exact packagePath result := by
  have hresult : (scan ((idleHost stagedBefore).scanHost packagePath)
      packagePath).result.isSome = true := by
    decide +kernel
  obtain ⟨result, hresult⟩ := Option.isSome_iff_exists.mp hresult
  refine ⟨result, hresult, ?_⟩
  apply (exact_iff_attributable (idleHost stagedBefore) packagePath hresult).mpr
  have hinstalled : (idleHost stagedBefore).installed packagePath = stagedBefore :=
    staged_stagedBefore
  intro captured _
  rw [hinstalled, staged_stagedBefore]
  split
  · exact ⟨keptIn_self, keptIn_self⟩
  · intro path
    constructor
    · intro _
      apply borne_iff.mp
      intro change
      rw [hinstalled, staged_stagedBefore]
      exact (differs_self _ change).trans (differs_self _ change).symm
    · intro _ hwritten
      obtain ⟨state, hstate⟩ := exists_record_of_shares hwritten
      rw [staged_stagedBefore] at hstate ⊢
      refine ⟨state, hstate, ?_⟩
      intro staged hstaged final _ change
      obtain rfl := Option.some.inj (hstate.symm.trans hstaged)
      rfl

/-- A package that is staged for an install that does nothing is reported as created. -/
theorem not_exact_staged :
    ∃ result, (scan ((idleHost pacmanFiles).scanHost packagePath) packagePath).result =
        some result ∧ ¬ (idleHost pacmanFiles).Exact packagePath result := by
  have hcreated : ∃ result ∈ (scan ((idleHost pacmanFiles).scanHost packagePath)
      packagePath).result, stagedPath packagePath ∈ result.created := by
    decide +kernel
  obtain ⟨result, hresult, hcreated⟩ := hcreated
  refine ⟨result, hresult, ?_⟩
  intro h
  have hchanged := (h.exact .created (stagedPath packagePath)).mp hcreated
  rw [idle_changes] at hchanged
  cases hchanged

end ExeCell.Package.FileDiff
