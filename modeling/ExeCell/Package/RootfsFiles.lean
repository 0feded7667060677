import ExeCell.Lib.FileTree
import ExeCell.Package.Rootfs

/-!
# The files of a session

`Session::create` with what it does to the files of the host, and the objects that hold a
session afterwards. Whatever the calls answer, a session removes nothing that was there
before but what it takes for its own (`session_touches`): the workspace it is given, and the
two names next to the root.
-/

namespace ExeCell.Package.Rootfs

open FileTree (Tree)
open FileTree.Tree (Keeps keeps_makeDirectories keeps_graft keeps_removeAll)

/-! ## The calls -/

/-- What is not a directory. -/
inductive Leaf where
  | file (content : Text)
  | symlink (target : Text)
  deriving DecidableEq, Repr

abbrev Files := Tree Text Leaf

/-- The host with what its calls do. The last name of a path is not followed when it leads to a
place, and a session makes no links on the way to one. -/
structure System extends Host where
  place : Text → List Text
  place_append : ∀ path name, '/' ∉ name → LexicalPath.Plain name →
    place (LexicalPath.append path name) = place path ++ [name]
  /-- What is in a snapshot of a place. -/
  image : Files → List Text → Files
  /-- What stays when a path is removed and not everything can be. -/
  left : Text → List (List Text) := fun _ => []
  /-- How many directories there are on the way when `create_directories` fails. -/
  made : Nat := 0
  /-- Whether `fork` gives the session a guardian. -/
  forked : Bool := true

def System.isSymlink (system : System) (files : Files) (path : Text) : Bool :=
  system.workspaceSymlink &&
    match files.entries (system.place path) with
    | some (.leaf (.symlink _)) => true
    | _ => false

/-- `exists`, which follows a link. -/
def System.exists (system : System) (files : Files) (path : Text) (answer : Option Bool) :
    Option Bool :=
  match files.entries (system.place path) with
  | none => answer.map fun _ => false
  | some (.leaf (.symlink _)) => answer
  | some _ => answer.map fun _ => true

/-- `create_directories`, with its error. -/
def System.createDirectories (system : System) (files : Files) (path : Text)
    (error : Option Text) : Files × Option Text :=
  if !files.canMake (system.place path) then (files, some "Not a directory".toList)
  else
    match error with
    | none => (files.makeDirectories (system.place path), none)
    | some message =>
      (files.makeDirectories ((system.place path).take system.made), some message)

def System.snapshot (system : System) (files : Files) (source path : Text) (answer : Bool) :
    Files × Bool :=
  if answer && files.isFree (system.place path) then
    (files.graft (system.place path) (system.image files (system.place source)), true)
  else (files, false)

/-- The two snapshots of a session; the second one is not tried without the first. -/
def System.snapshots (system : System) (files : Files) (snapshotSource source writable : Text) :
    Files × Bool :=
  match system.snapshot files snapshotSource source system.sourceSnapshot with
  | (files, false) => (files, false)
  | (files, true) => system.snapshot files source writable system.writableSnapshot

def System.createSubvolume (system : System) (files : Files) (path : Text) (answer : Bool) :
    Files × Bool :=
  if answer && files.isFree (system.place path) then
    (files.makeDirectories (system.place path), true)
  else (files, false)

def System.removePath (system : System) (files : Files) (path : Text) : Files :=
  if path = [] then files else files.removeAll (system.left path) (system.place path)

/-! ## The session -/

/-- A session with its guardian, which has the arguments of its `rm -rf` from the start. -/
structure Held extends Session where
  guardian : Option (List Text) := none
  deriving DecidableEq, Repr

def System.launchGuardian (system : System) (session : Session) : Option (List Text) :=
  if system.forked then some [session.source, session.writable, session.base, session.workspace]
  else none

/-- What is left of a session that has been moved or released. -/
def Held.moved (held : Held) : Held := { mode := held.mode }

def Held.release (system : System) (files : Files) (held : Held) : Files × Held :=
  let files := [held.source, held.writable, held.base].foldl system.removePath files
  -- the guardian may have died before; it removes nothing then, and nothing else otherwise
  let files := (held.guardian.getD []).foldl system.removePath files
  (system.removePath files held.workspace, held.moved)

/-- An early return, which destroys the half-built session. -/
def Held.abandon (system : System) (files : Files) (held : Held)
    (result : Option (Except Text Held)) : Files × Option (Except Text Held) :=
  ((held.release system files).1, result)

/-- The plain directory that stands in for the snapshots. -/
def degradedOn (system : System) (files : Files) (held : Held) (guarded : Bool) (error : Text) :
    Files × Option (Except Text Held) :=
  let held := { held with
    source := []
    writable := LexicalPath.append held.workspace ("rootfs-".toList ++ Text.ofNat system.pid) }
  match system.createDirectories files held.writable system.directoryError with
  | (files, some message) => held.abandon system files (some (.error (error ++ message)))
  | (files, none) =>
    let guardian := if guarded then system.launchGuardian held.toSession else none
    (files, some (.ok { held with mode := .degraded, guardian := guardian }))

def sourcePath (system : System) (parent : Text) : Text :=
  LexicalPath.append parent (".execell-source-".toList ++ system.stamp)

def writablePath (system : System) (parent : Text) : Text :=
  LexicalPath.append parent (".execell-session-".toList ++ system.stamp)

def basePath (system : System) (workspace : Text) : Text :=
  LexicalPath.append workspace (".execell-base-".toList ++ system.stamp)

/-- `Session::create` from the snapshots on. -/
def snapshotOn (system : System) (files : Files) (held : Held) (snapshotSource parent : Text) :
    Files × Option (Except Text Held) :=
  let held := { held with
    source := sourcePath system parent
    writable := writablePath system parent }
  let collision := some (.error "rootfs session name collision".toList)
  match system.exists files held.source system.sourceExists with
  | none => held.abandon system files none
  | some true => held.abandon system files collision
  | some false =>
    match system.exists files held.writable system.writableExists with
    | none => held.abandon system files none
    | some true => held.abandon system files collision
    | some false =>
      match system.snapshots files snapshotSource held.source held.writable with
      | (files, true) =>
        let guardian := system.launchGuardian held.toSession
        (files, some (.ok { held with mode := .btrfs, guardian := guardian }))
      | (files, false) =>
        let files := [held.base, held.source, held.writable].foldl system.removePath files
        degradedOn system files held true "rootfs snapshot and fallback creation failed: ".toList

/-- `Session::create`, the files and what is returned; nothing is when a query throws. -/
def Session.createOn (system : System) (files : Files) (source workspace : Text) :
    Files × Option (Except Text Held) :=
  if workspace = [] ∨ system.isSymlink files workspace then
    (files, some (.error "rootfs workspace must not be symlink".toList))
  else
    match system.createDirectories files workspace system.workspaceError with
    | (files, some message) =>
      (files, some (.error ("rootfs workspace creation failed: ".toList ++ message)))
    | (files, none) =>
      let held : Held := { workspace := workspace }
      match system.baseExists with
      | none => held.abandon system files none
      | some baseExists =>
        if !baseExists || !system.baseBtrfs then
          degradedOn system files held false "temporary rootfs creation failed: ".toList
        else if source = [] then
          let held := { held with base := basePath system workspace }
          match system.createSubvolume files held.base system.subvolumeCreated with
          | (files, false) =>
            held.abandon system files
              (some (.error "Btrfs base subvolume creation failed".toList))
          | (files, true) => snapshotOn system files held held.base workspace
        else snapshotOn system files held source (parentPath source)

/-! ## What is returned -/

/-- What a call returns, without the guardian. -/
def returned (result : Files × Option (Except Text Held)) : Option (Except Text Session) :=
  result.2.map (Except.map Held.toSession)

section Returned

variable {system : System} {files : Files} {held : Held} {source workspace : Text}

/-- The host with these answers of the calls on the way to the snapshots. -/
def System.answering (system : System) (answers : Host) : Host :=
  { system.toHost with
    workspaceSymlink := false, workspaceError := none
    directoryError := answers.directoryError
    subvolumeCreated := answers.subvolumeCreated
    sourceExists := answers.sourceExists, writableExists := answers.writableExists
    sourceSnapshot := answers.sourceSnapshot, writableSnapshot := answers.writableSnapshot }

theorem create_answering (hworkspace : workspace ≠ []) (answers : Host) :
    Session.create (system.answering answers) source workspace =
      match system.baseExists with
      | none => none
      | some baseExists =>
        if !baseExists || !system.baseBtrfs then
          some (degradedSession (system.answering answers) workspace []
            "temporary rootfs creation failed: ".toList)
        else if source = [] then
          if !answers.subvolumeCreated then
            some (.error "Btrfs base subvolume creation failed".toList)
          else
            snapshotSession (system.answering answers) workspace (basePath system workspace)
              workspace
        else snapshotSession (system.answering answers) workspace [] (parentPath source) := by
  have hopen : ¬(workspace = [] ∨ (system.answering answers).workspaceSymlink = true) := by
    rintro (hnil | ⟨⟨⟩⟩)
    exact hworkspace hnil
  rw [Session.create, if_neg hopen]
  rfl

/-- The directory is made as the answer says. -/
theorem returned_degradedOn (guarded : Bool) (error : Text) {answers : Host}
    (herror : answers.directoryError = (system.createDirectories files
      (LexicalPath.append held.workspace ("rootfs-".toList ++ Text.ofNat system.pid))
      system.directoryError).2) :
    returned (degradedOn system files held guarded error) =
      some (degradedSession (system.answering answers) held.workspace held.base error) := by
  rw [degradedSession, System.answering, herror, degradedOn]
  dsimp only
  cases system.createDirectories files
      (LexicalPath.append held.workspace ("rootfs-".toList ++ Text.ofNat system.pid))
      system.directoryError with
  | mk after error =>
    cases error with
    | none => rfl
    | some message => rfl

/-- The answers that lead to what `snapshotOn` returns. -/
theorem returned_snapshotOn (system : System) (files : Files) (held : Held)
    (snapshotSource parent : Text) :
    ∃ answers : Host, answers.subvolumeCreated = true ∧
      returned (snapshotOn system files held snapshotSource parent) =
        snapshotSession (system.answering answers) held.workspace held.base parent := by
  rw [snapshotOn]
  dsimp only
  cases system.exists files (sourcePath system parent) system.sourceExists with
  | none => exact ⟨{ sourceExists := none }, rfl, rfl⟩
  | some sourceExists =>
    cases sourceExists with
    | true => exact ⟨{ sourceExists := some true }, rfl, rfl⟩
    | false =>
      dsimp only
      cases system.exists files (writablePath system parent) system.writableExists with
      | none => exact ⟨{ writableExists := none }, rfl, rfl⟩
      | some writableExists =>
        cases writableExists with
        | true => exact ⟨{ writableExists := some true }, rfl, rfl⟩
        | false =>
          dsimp only
          cases system.snapshots files snapshotSource (sourcePath system parent)
              (writablePath system parent) with
          | mk after both =>
            cases both with
            | true => exact ⟨{}, rfl, rfl⟩
            | false =>
              let answers : Host := { sourceSnapshot := false, directoryError :=
                (system.createDirectories
                  ([held.base, sourcePath system parent, writablePath system parent].foldl
                    system.removePath after)
                  (LexicalPath.append held.workspace ("rootfs-".toList ++ Text.ofNat system.pid))
                  system.directoryError).2 }
              have herror : answers.directoryError = (system.createDirectories
                  ([held.base, sourcePath system parent, writablePath system parent].foldl
                    system.removePath after)
                  (LexicalPath.append held.workspace ("rootfs-".toList ++ Text.ofNat system.pid))
                  system.directoryError).2 := rfl
              exact ⟨answers, rfl, returned_degradedOn true _ herror⟩

/-- `create` on the files returns what `create` returns for some answers of the calls. -/
theorem returned_createOn (system : System) (files : Files) (source workspace : Text) :
    ∃ host : Host, host.pid = system.pid ∧ host.stamp = system.stamp ∧
      Session.create host source workspace =
        returned (Session.createOn system files source workspace) := by
  rw [Session.createOn]
  by_cases hrefused : workspace = [] ∨ system.isSymlink files workspace = true
  · refine ⟨{ system.toHost with workspaceSymlink := system.isSymlink files workspace },
      rfl, rfl, ?_⟩
    rw [Session.create, if_pos hrefused, if_pos hrefused]
    rfl
  rw [if_neg hrefused]
  have hworkspace : workspace ≠ [] := fun hnil => hrefused (.inl hnil)
  cases system.createDirectories files workspace system.workspaceError with
  | mk made error =>
    cases error with
    | some message =>
      refine ⟨{ system.toHost with workspaceSymlink := false, workspaceError := some message },
        rfl, rfl, ?_⟩
      rw [Session.create, if_neg (by simpa using hworkspace)]
      rfl
    | none =>
      refine Exists.elim ?_ fun answers hanswers => ⟨system.answering answers, rfl, rfl, hanswers⟩
      simp only [create_answering hworkspace]
      cases system.baseExists with
      | none => exact ⟨{}, rfl⟩
      | some baseExists =>
        dsimp only
        by_cases hplain : (!baseExists || !system.baseBtrfs) = true
        · let answers : Host := { directoryError := (system.createDirectories made
            (LexicalPath.append workspace ("rootfs-".toList ++ Text.ofNat system.pid))
            system.directoryError).2 }
          refine ⟨answers, ?_⟩
          rw [if_pos hplain, if_pos hplain]
          exact (@returned_degradedOn system made { workspace := workspace } false _ answers rfl).symm
        rw [if_neg hplain]
        by_cases hsource : source = []
        · rw [if_pos hsource]
          cases system.createSubvolume made (basePath system workspace)
              system.subvolumeCreated with
          | mk after created =>
            cases created with
            | false =>
              refine ⟨{ subvolumeCreated := false }, ?_⟩
              rw [if_neg hplain, if_pos hsource]
              rfl
            | true =>
              obtain ⟨answers, hcreated, hanswers⟩ := returned_snapshotOn system after
                { workspace := workspace, base := basePath system workspace }
                (basePath system workspace) workspace
              refine ⟨answers, ?_⟩
              rw [if_neg hplain, if_pos hsource, hcreated, hanswers]
              rfl
        · rw [if_neg hsource]
          obtain ⟨answers, _, hanswers⟩ := returned_snapshotOn system made
            { workspace := workspace } source (parentPath source)
          refine ⟨answers, ?_⟩
          rw [if_neg hplain, if_neg hsource]
          exact hanswers.symm

end Returned

/-! ## The objects -/

/-- What a program does with its objects of `Session`. -/
inductive Action where
  | declare (object : Nat)
  | construct (other object : Nat)
  | assign (other object : Nat)
  | release (object : Nat)
  | destroy (object : Nat)
  deriving DecidableEq, Repr

/-- The objects there are. -/
abbrev Objects := Nat → Option Held

/-- An action; one that is about an object that is not there does nothing. -/
def act (system : System) : Files × Objects → Action → Files × Objects
  | (files, objects), .declare object =>
    match objects object with
    | none => (files, Function.update objects object (some {}))
    | some _ => (files, objects)
  | (files, objects), .construct other object =>
    match objects other, objects object with
    | some held, none =>
      (files, Function.update (Function.update objects other (some held.moved)) object (some held))
    | _, _ => (files, objects)
  | (files, objects), .assign other object =>
    match objects other, objects object with
    | some held, some target =>
      if other = object then (files, objects)
      else
        ((target.release system files).1,
          Function.update (Function.update objects other (some held.moved)) object (some held))
    | _, _ => (files, objects)
  | (files, objects), .release object =>
    match objects object with
    | some held =>
      let (files, held) := held.release system files
      (files, Function.update objects object (some held))
    | none => (files, objects)
  | (files, objects), .destroy object =>
    match objects object with
    | some held => ((held.release system files).1, Function.update objects object none)
    | none => (files, objects)

/-- The only object is the one that `create` has returned. -/
def single (held : Held) : Objects := Function.update (fun _ => none) 0 (some held)

/-- What is at a place is still there: behind a `create` that has failed, and behind one that
has not, whatever is then done with the session. -/
def Survives (system : System) (files : Files) (source workspace : Text) (place : List Text)
    (entry : FileTree.Entry Leaf) : Prop :=
  match Session.createOn system files source workspace with
  | (after, some (.ok held)) =>
    ∀ actions : List Action, (actions.foldl (act system) (after, single held)).1.entries place = some entry
  | (after, _) => after.entries place = some entry

/-- The paths that a session takes for its own. -/
def System.taken (system : System) (files : Files) (source workspace : Text) : List Text :=
  if workspace = [] ∨ system.isSymlink files workspace then []
  else if (system.createDirectories files workspace system.workspaceError).2 ≠ none then []
  else if system.baseExists = some true ∧ system.baseBtrfs then
    let parent := if source = [] then workspace else parentPath source
    [workspace, sourcePath system parent, writablePath system parent]
  else [workspace]

/-! ## What is taken -/

/-- A path is empty, or nothing that is to stay is at it or below it. -/
def Mine (system : System) (away : List Text → Prop) (path : Text) : Prop :=
  path ≠ [] → ∀ other, away other → ¬system.place path <+: other

/-- A session removes only paths of its own. -/
structure Owned (system : System) (away : List Text → Prop) (held : Held) : Prop where
  source : Mine system away held.source
  writable : Mine system away held.writable
  base : Mine system away held.base
  workspace : Mine system away held.workspace
  guardian : ∀ path ∈ held.guardian.getD [], Mine system away path

section Owned

variable {system : System} {away : List Text → Prop} {files files' : Files} {held : Held}
  {paths : List Text} {path name : Text}

theorem mine_nil : Mine system away [] := fun h => absurd rfl h

/-- What is below an own path is an own path. -/
theorem Mine.append (h : Mine system away path) (hpath : path ≠ []) (hslash : '/' ∉ name)
    (hname : LexicalPath.Plain name) : Mine system away (LexicalPath.append path name) := by
  intro _ other haway hunder
  rw [system.place_append path name hslash hname] at hunder
  exact h hpath other haway ((List.prefix_append _ _).trans hunder)

theorem keeps_removePath (h : Mine system away path) (files : Files) :
    Keeps away files (system.removePath files path) := by
  rw [System.removePath]
  split
  · exact .refl away files
  · rename_i hpath
    exact keeps_removeAll files (system.left path) (h hpath)

theorem keeps_removePaths (h : ∀ path ∈ paths, Mine system away path) (files : Files) :
    Keeps away files (paths.foldl system.removePath files) := by
  induction paths generalizing files with
  | nil => exact .refl away files
  | cons path paths ih =>
    rw [List.forall_mem_cons] at h
    exact (keeps_removePath h.1 files).trans (ih h.2 _)

theorem Owned.release (h : Owned system away held) (files : Files) :
    Keeps away files (held.release system files).1 := by
  have hmembers : ∀ path ∈ [held.source, held.writable, held.base], Mine system away path := by
    simp only [List.forall_mem_cons, List.not_mem_nil, false_implies, implies_true, and_true]
    exact ⟨h.source, h.writable, h.base⟩
  exact ((keeps_removePaths hmembers files).trans (keeps_removePaths h.guardian _)).trans
    (keeps_removePath h.workspace _)

theorem Owned.moved (held : Held) : Owned system away held.moved :=
  ⟨mine_nil, mine_nil, mine_nil, mine_nil, nofun⟩

theorem owned_empty : Owned system away {} := ⟨mine_nil, mine_nil, mine_nil, mine_nil, nofun⟩

/-- The guardian removes the same paths. -/
theorem Owned.guarded (h : Owned system away held) (mode : Mode) :
    Owned system away
      { held with mode := mode, guardian := system.launchGuardian held.toSession } := by
  refine ⟨h.source, h.writable, h.base, h.workspace, ?_⟩
  dsimp only [System.launchGuardian]
  split
  · simp only [Option.getD_some, List.forall_mem_cons, List.not_mem_nil, false_implies,
      implies_true, and_true]
    exact ⟨h.source, h.writable, h.base, h.workspace⟩
  · nofun

end Owned

/-! ## Creating -/

/-- Nothing is lost, and a session that is returned removes only paths of its own. -/
structure Harmless (system : System) (away : List Text → Prop) (files : Files)
    (result : Files × Option (Except Text Held)) : Prop where
  keeps : Keeps away files result.1
  owned : ∀ held, result.2 = some (.ok held) → Owned system away held

section Create

variable {system : System} {away : List Text → Prop} {before files : Files} {held : Held}
  {parent : Text}

theorem keeps_createDirectories (system : System) (away : List Text → Prop) (files : Files)
    (path : Text) (error : Option Text) :
    Keeps away files (system.createDirectories files path error).1 := by
  rw [System.createDirectories.eq_def]
  split
  · exact .refl away files
  · split
    · exact keeps_makeDirectories away files _
    · exact keeps_makeDirectories away files _

theorem keeps_snapshot (system : System) (away : List Text → Prop) (files : Files)
    (source path : Text) (answer : Bool) :
    Keeps away files (system.snapshot files source path answer).1 := by
  rw [System.snapshot]
  split
  · exact keeps_graft away files _ _
  · exact .refl away files

theorem keeps_snapshots (system : System) (away : List Text → Prop) (files : Files)
    (snapshotSource source writable : Text) :
    Keeps away files (system.snapshots files snapshotSource source writable).1 := by
  have hfirst := keeps_snapshot system away files snapshotSource source
    system.sourceSnapshot
  rw [System.snapshots]
  split
  · rename_i after heq
    rw [heq] at hfirst
    exact hfirst
  · rename_i after heq
    rw [heq] at hfirst
    exact hfirst.trans (keeps_snapshot system away after source writable system.writableSnapshot)

theorem keeps_createSubvolume (system : System) (away : List Text → Prop) (files : Files)
    (path : Text) (answer : Bool) :
    Keeps away files (system.createSubvolume files path answer).1 := by
  rw [System.createSubvolume]
  split
  · exact keeps_makeDirectories away files _
  · exact .refl away files

theorem harmless_abandon (hkeeps : Keeps away before files) (h : Owned system away held)
    {result : Option (Except Text Held)} (hresult : ∀ held, result ≠ some (.ok held)) :
    Harmless system away before (held.abandon system files result) :=
  ⟨hkeeps.trans (h.release files), fun held hok => absurd hok (hresult held)⟩

theorem slash_not_mem_stamp (host : Host) : '/' ∉ host.stamp := by
  have hdigits : ∀ value, '/' ∉ Text.ofNat value := Text.not_mem_ofNat (by decide)
  simp [Host.stamp, hdigits]

theorem mine_plainDirectory (h : Mine system away held.workspace) (hworkspace : held.workspace ≠ []) :
    Mine system away
      (LexicalPath.append held.workspace ("rootfs-".toList ++ Text.ofNat system.pid)) := by
  refine h.append hworkspace ?_ ?_
  · have hdigits : '/' ∉ Text.ofNat system.pid := Text.not_mem_ofNat (by decide) _
    simp [hdigits]
  · simp [LexicalPath.Plain, LexicalPath.dotdot]

theorem harmless_degradedOn (hkeeps : Keeps away before files) (h : Owned system away held)
    (hworkspace : held.workspace ≠ []) (guarded : Bool) (error : Text) :
    Harmless system away before (degradedOn system files held guarded error) := by
  have hplain : Owned system away { held with
      source := []
      writable := LexicalPath.append held.workspace ("rootfs-".toList ++ Text.ofNat system.pid) } :=
    ⟨mine_nil, mine_plainDirectory h.workspace hworkspace, h.base, h.workspace, h.guardian⟩
  have hcreate := keeps_createDirectories system away files
    (LexicalPath.append held.workspace ("rootfs-".toList ++ Text.ofNat system.pid))
    system.directoryError
  rw [degradedOn]
  dsimp only
  split
  · rename_i after message heq
    rw [heq] at hcreate
    exact harmless_abandon (hkeeps.trans hcreate) hplain nofun
  · rename_i after heq
    rw [heq] at hcreate
    refine ⟨hkeeps.trans hcreate, fun held hok => ?_⟩
    obtain rfl := Except.ok.inj (Option.some.inj hok)
    cases guarded with
    | true => exact hplain.guarded .degraded
    | false =>
      exact ⟨hplain.source, hplain.writable, hplain.base, hplain.workspace, nofun⟩

theorem harmless_snapshotOn (hkeeps : Keeps away before files) (h : Owned system away held)
    (hworkspace : held.workspace ≠ [])
    (hsource : Mine system away (sourcePath system parent))
    (hwritable : Mine system away (writablePath system parent)) (snapshotSource : Text) :
    Harmless system away before (snapshotOn system files held snapshotSource parent) := by
  have howned : Owned system away { held with
      source := sourcePath system parent
      writable := writablePath system parent } :=
    ⟨hsource, hwritable, h.base, h.workspace, h.guardian⟩
  rw [snapshotOn]
  dsimp only
  cases system.exists files (sourcePath system parent) system.sourceExists with
  | none => exact harmless_abandon hkeeps howned nofun
  | some sourceExists =>
    cases sourceExists with
    | true => exact harmless_abandon hkeeps howned nofun
    | false =>
      dsimp only
      cases system.exists files (writablePath system parent) system.writableExists with
      | none => exact harmless_abandon hkeeps howned nofun
      | some writableExists =>
        cases writableExists with
        | true => exact harmless_abandon hkeeps howned nofun
        | false =>
          dsimp only
          have hsnapshots := keeps_snapshots system away files snapshotSource
            (sourcePath system parent) (writablePath system parent)
          cases hboth : system.snapshots files snapshotSource (sourcePath system parent)
              (writablePath system parent) with
          | mk after both =>
            rw [hboth] at hsnapshots
            cases both with
            | true =>
              refine ⟨hkeeps.trans hsnapshots, fun held hok => ?_⟩
              obtain rfl := Except.ok.inj (Option.some.inj hok)
              exact howned.guarded .btrfs
            | false =>
              have hremoved : ∀ path ∈ [held.base, sourcePath system parent,
                  writablePath system parent], Mine system away path := by
                simp only [List.forall_mem_cons, List.not_mem_nil, false_implies, implies_true,
                  and_true]
                exact ⟨h.base, hsource, hwritable⟩
              exact harmless_degradedOn
                ((hkeeps.trans hsnapshots).trans (keeps_removePaths hremoved after)) howned
                hworkspace true _

/-- `create` loses nothing but what it takes, and the session it returns removes nothing else. -/
theorem harmless_createOn (system : System) (files : Files) (source workspace : Text)
    (away : List Text → Prop)
    (haway : ∀ path ∈ system.taken files source workspace, ∀ other, away other →
      ¬system.place path <+: other) :
    Harmless system away files (Session.createOn system files source workspace) := by
  rw [Session.createOn]
  rw [System.taken] at haway
  by_cases hrefused : workspace = [] ∨ system.isSymlink files workspace = true
  · rw [if_pos hrefused]
    exact ⟨.refl away files, nofun⟩
  rw [if_neg hrefused] at haway ⊢
  have hcreate := keeps_createDirectories system away files workspace
    system.workspaceError
  cases hmade : system.createDirectories files workspace system.workspaceError with
  | mk made error =>
    rw [hmade] at hcreate haway
    cases error with
    | some message => exact ⟨hcreate, nofun⟩
    | none =>
      rw [if_neg (by simp)] at haway
      have hworkspace : workspace ≠ [] := fun hnil => hrefused (.inl hnil)
      have hmine : Mine system away workspace := by
        intro _ other hother
        refine haway workspace ?_ other hother
        split
        · exact List.mem_cons_self
        · exact List.mem_singleton_self workspace
      have howned : Owned system away { workspace := workspace } :=
        ⟨mine_nil, mine_nil, mine_nil, hmine, nofun⟩
      dsimp only
      cases hbase : system.baseExists with
      | none => exact harmless_abandon hcreate howned nofun
      | some baseExists =>
        dsimp only
        by_cases hplain : (!baseExists || !system.baseBtrfs) = true
        · rw [if_pos hplain]
          exact harmless_degradedOn hcreate howned hworkspace false _
        rw [if_neg hplain]
        have hbtrfs : system.baseExists = some true ∧ system.baseBtrfs = true := by
          simpa [hbase] using hplain
        rw [if_pos hbtrfs] at haway
        by_cases hsource : source = []
        · rw [if_pos hsource] at haway ⊢
          have hbaseMine : Mine system away (basePath system workspace) := by
            refine hmine.append hworkspace ?_ (by simp [LexicalPath.Plain, LexicalPath.dotdot])
            have hstamp := slash_not_mem_stamp system.toHost
            simp [hstamp]
          have hownedBase : Owned system away
              { workspace := workspace, base := basePath system workspace } :=
            ⟨mine_nil, mine_nil, hbaseMine, hmine, nofun⟩
          have hsubvolume := keeps_createSubvolume system away made
            (basePath system workspace) system.subvolumeCreated
          cases hmade : system.createSubvolume made (basePath system workspace)
              system.subvolumeCreated with
          | mk after created =>
            rw [hmade] at hsubvolume
            cases created with
            | false => exact harmless_abandon (hcreate.trans hsubvolume) hownedBase nofun
            | true =>
              exact harmless_snapshotOn (hcreate.trans hsubvolume) hownedBase hworkspace
                (fun _ => haway _ (by simp)) (fun _ => haway _ (by simp)) _
        · rw [if_neg hsource] at haway ⊢
          exact harmless_snapshotOn hcreate howned hworkspace
            (fun _ => haway _ (by simp)) (fun _ => haway _ (by simp)) _

end Create

/-! ## Every run -/

section Runs

variable {system : System} {away : List Text → Prop} {files : Files} {objects : Objects}
  {held : Held}

/-- All objects remove only paths of their session. -/
def AllOwned (system : System) (away : List Text → Prop) (objects : Objects) : Prop :=
  ∀ object held, objects object = some held → Owned system away held

theorem AllOwned.update (h : AllOwned system away objects) (object : Nat) {value : Option Held}
    (hvalue : ∀ held, value = some held → Owned system away held) :
    AllOwned system away (Function.update objects object value) := by
  intro other held hheld
  by_cases hsame : other = object
  · rw [hsame, Function.update_self] at hheld
    exact hvalue held hheld
  · rw [Function.update_of_ne hsame] at hheld
    exact h other held hheld

theorem owned_of_some {value : Held} (h : Owned system away value) :
    ∀ held, some value = some held → Owned system away held := by
  rintro held ⟨⟩
  exact h

/-- One action loses nothing but what the session has taken. -/
theorem act_keeps (h : AllOwned system away objects) (files : Files) (action : Action) :
    Keeps away files (act system (files, objects) action).1 ∧
      AllOwned system away (act system (files, objects) action).2 := by
  cases action with
  | declare object =>
    rw [act]
    cases objects object with
    | none => exact ⟨.refl away files, h.update object (owned_of_some owned_empty)⟩
    | some held => exact ⟨.refl away files, h⟩
  | construct other object =>
    rw [act]
    cases hother : objects other with
    | none => exact ⟨.refl away files, h⟩
    | some held =>
      cases objects object with
      | some target => exact ⟨.refl away files, h⟩
      | none =>
        exact ⟨.refl away files, (h.update other (owned_of_some (Owned.moved held))).update object
          (owned_of_some (h other held hother))⟩
  | assign other object =>
    rw [act]
    cases hother : objects other with
    | none => exact ⟨.refl away files, h⟩
    | some held =>
      cases hobject : objects object with
      | none => exact ⟨.refl away files, h⟩
      | some target =>
        dsimp only
        split
        · exact ⟨.refl away files, h⟩
        · exact ⟨(h object target hobject).release files,
            (h.update other (owned_of_some (Owned.moved held))).update object
              (owned_of_some (h other held hother))⟩
  | release object =>
    rw [act]
    cases hobject : objects object with
    | none => exact ⟨.refl away files, h⟩
    | some held =>
      exact ⟨(h object held hobject).release files,
        h.update object (owned_of_some (Owned.moved held))⟩
  | destroy object =>
    rw [act]
    cases hobject : objects object with
    | none => exact ⟨.refl away files, h⟩
    | some held => exact ⟨(h object held hobject).release files, h.update object nofun⟩

theorem run_keeps (h : AllOwned system away objects) (files : Files) (actions : List Action) :
    Keeps away files (actions.foldl (act system) (files, objects)).1 := by
  induction actions generalizing files objects with
  | nil => exact .refl away files
  | cons action actions ih =>
    obtain ⟨hkeeps, howned⟩ := act_keeps h files action
    exact hkeeps.trans (ih howned _)

/-- Whatever the calls answer, and whatever is then done with the session, what was there before
is still there, but for what is at or below a path that the session takes for its own. -/
theorem session_touches (system : System) (files : Files) (source workspace : Text)
    {place : List Text} {entry : FileTree.Entry Leaf} (hentry : files.entries place = some entry)
    (haway : ∀ path ∈ system.taken files source workspace, ¬system.place path <+: place) :
    Survives system files source workspace place entry := by
  have hharmless := harmless_createOn system files source workspace (fun other => other = place)
    fun path hpath other hother => hother ▸ haway path hpath
  rw [Survives]
  split
  · rename_i after held heq
    rw [heq] at hharmless
    intro actions
    have hsingle : AllOwned system (fun other => other = place) (single held) := by
      refine AllOwned.update (fun _ _ hnone => absurd hnone.symm (Option.some_ne_none _)) 0 ?_
      exact owned_of_some (hharmless.owned held rfl)
    exact run_keeps hsingle after actions place entry rfl (hharmless.keeps place entry rfl hentry)
  · rename_i after result _ heq
    rw [heq] at hharmless
    exact hharmless.keeps place entry rfl hentry

end Runs

/-- A host without links, whose snapshots are of empty directories. -/
def plainSystem : System where
  place := LexicalPath.normalNames
  place_append := by
    intro path name hslash hname
    have hsplit : name.splitOn '/' = [name] := List.splitOn_eq_singleton hslash
    rw [LexicalPath.normalNames_append (by rw [hsplit]; simpa using hname), hsplit]
  image := fun _ _ => ∅

/-- A root, and a directory in a workspace. -/
def plainFiles : Files :=
  Tree.makeDirectories (Tree.makeDirectories ∅ ["root".toList]) ["work".toList, "notes".toList]

/-- A session next to the root leaves the root alone. -/
theorem session_touches_root :
    Survives plainSystem plainFiles "/root".toList "/session".toList ["root".toList] .directory :=
  session_touches plainSystem plainFiles "/root".toList "/session".toList rfl (by decide +kernel)

/-- What was in the workspace before is gone when the session is released. -/
theorem not_survives_workspace :
    plainFiles.entries ["work".toList, "notes".toList] = some .directory ∧
      ¬Survives plainSystem plainFiles "/root".toList "/work".toList
        ["work".toList, "notes".toList] .directory := by
  refine ⟨rfl, fun h => ?_⟩
  have hreleased := h [.release 0]
  exact absurd hreleased (by decide +kernel)

end ExeCell.Package.Rootfs
