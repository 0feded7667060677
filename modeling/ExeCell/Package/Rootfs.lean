import ExeCell.Core.Text
import ExeCell.Lib.LexicalPath

/-!
# The root of a session

`rootfs::Session::create`: two Btrfs snapshots of the given root, or a plain directory
when there is no Btrfs or the snapshots fail. A session in a plain directory is degraded,
and not isolated.
-/

namespace ExeCell.Package.Rootfs

inductive Mode where
  | btrfs
  | degraded
  deriving DecidableEq, Repr

structure Session where
  source : Text := []
  writable : Text := []
  workspace : Text := []
  base : Text := []
  mode : Mode := .degraded
  deriving DecidableEq, Repr

def Session.isolated (session : Session) : Bool := session.mode = .btrfs

def Session.event (session : Session) : Text :=
  if session.isolated then "\x7b\"schema_version\":1,\"type\":\"rootfs_btrfs\"\x7d".toList
  else "\x7b\"schema_version\":1,\"type\":\"rootfs_degraded\",\"isolated\":false\x7d".toList

/-- What the calls of `Session::create` answer; only those it really makes are looked at.
A query that may throw has no answer when it does. -/
structure Host where
  pid : Nat := 1
  uid : Nat := 0
  /-- `session_sequence`. -/
  sequence : Nat := 0
  workspaceSymlink : Bool := false
  /-- The error of `create_directories` for the workspace. -/
  workspaceError : Option Text := none
  baseExists : Option Bool := some true
  baseBtrfs : Bool := true
  /-- The error of `create_directories` for the plain directory. -/
  directoryError : Option Text := none
  subvolumeCreated : Bool := true
  sourceExists : Option Bool := some false
  writableExists : Option Bool := some false
  sourceSnapshot : Bool := true
  writableSnapshot : Bool := true
  deriving DecidableEq, Repr

/-- `parent_path`. -/
def parentPath (path : Text) : Text :=
  let front := (path.reverse.dropWhile (· ≠ '/')).dropWhile (· = '/')
  if path.all (· = '/') then path
  else if front = [] then path.takeWhile (· = '/')
  else front.reverse

/-- The names of the snapshots. -/
def Host.stamp (host : Host) : Text :=
  Text.ofNat host.pid ++ '-' :: Text.ofNat host.uid ++ '-' :: Text.ofNat host.sequence

/-- The plain directory that stands in for the snapshots. -/
def degradedSession (host : Host) (workspace base error : Text) : Except Text Session :=
  match host.directoryError with
  | some message => .error (error ++ message)
  | none => .ok
    { workspace := workspace, base := base
      writable := LexicalPath.append workspace ("rootfs-".toList ++ Text.ofNat host.pid) }

/-- `Session::create` from the snapshots on. -/
def snapshotSession (host : Host) (workspace base parent : Text) : Option (Except Text Session) :=
  match host.sourceExists, host.writableExists with
  | none, _ => none
  | some true, _ => some (.error "rootfs session name collision".toList)
  | some false, none => none
  | some false, some true => some (.error "rootfs session name collision".toList)
  | some false, some false =>
    if !host.sourceSnapshot || !host.writableSnapshot then
      some (degradedSession host workspace base "rootfs snapshot and fallback creation failed: ".toList)
    else
      some (.ok
        { workspace := workspace, base := base
          source := LexicalPath.append parent (".execell-source-".toList ++ host.stamp)
          writable := LexicalPath.append parent (".execell-session-".toList ++ host.stamp)
          mode := .btrfs })

/-- `Session::create`. There is no answer when a query throws. -/
def Session.create (host : Host) (source workspace : Text) : Option (Except Text Session) :=
  if workspace = [] ∨ host.workspaceSymlink then
    some (.error "rootfs workspace must not be symlink".toList)
  else
    match host.workspaceError with
    | some message => some (.error ("rootfs workspace creation failed: ".toList ++ message))
    | none =>
      match host.baseExists with
      | none => none
      | some baseExists =>
        if !baseExists || !host.baseBtrfs then
          some (degradedSession host workspace [] "temporary rootfs creation failed: ".toList)
        else if source = [] then
          if !host.subvolumeCreated then
            some (.error "Btrfs base subvolume creation failed".toList)
          else
            snapshotSession host workspace
              (LexicalPath.append workspace (".execell-base-".toList ++ host.stamp)) workspace
        else snapshotSession host workspace [] (parentPath source)

/-- A session is isolated only when both snapshots of a Btrfs root were taken. -/
theorem isolated_create {host : Host} {source workspace : Text} {session : Session}
    (h : Session.create host source workspace = some (.ok session))
    (hisolated : session.isolated = true) :
    host.baseExists = some true ∧ host.baseBtrfs = true ∧ host.sourceSnapshot = true ∧
      host.writableSnapshot = true := by
  have hdegraded : ∀ base error, degradedSession host workspace base error ≠ .ok session := by
    intro base error heq
    rw [degradedSession] at heq
    split at heq
    · cases heq
    · cases heq
      cases hisolated
  have hsnapshot : ∀ base parent, snapshotSession host workspace base parent = some (.ok session) →
      host.sourceSnapshot = true ∧ host.writableSnapshot = true := by
    intro base parent heq
    rw [snapshotSession.eq_def] at heq
    split at heq
    · cases heq
    · cases heq
    · cases heq
    · cases heq
    · split at heq
      · exact absurd (Option.some.inj heq) (hdegraded _ _)
      · rename_i hboth
        simpa using hboth
  rw [Session.create] at h
  split at h
  · cases h
  split at h
  · cases h
  split at h
  · cases h
  rename_i baseExists hexists
  split at h
  · exact absurd (Option.some.inj h) (hdegraded _ _)
  rename_i hbase
  simp only [Bool.or_eq_true, Bool.not_eq_true', not_or, Bool.not_eq_false] at hbase
  rw [hexists, hbase.1]
  refine ⟨rfl, hbase.2, ?_⟩
  split at h
  · split at h
    · cases h
    · exact hsnapshot _ _ h
  · exact hsnapshot _ _ h

end ExeCell.Package.Rootfs
