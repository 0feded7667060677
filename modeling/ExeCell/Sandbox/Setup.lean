import ExeCell.Lib.Machine
import ExeCell.Lib.WaitStatus
import ExeCell.Sandbox.Config

/-!
# Setting up the sandbox

`sandbox::run` after its fork, as two processes that take system calls in turn. The
child works through a straight list of operations (`childProgram`) and ends at the
start of the target; the parent moves it into its cgroup and writes its id maps
(`parentProgram`), and then sends one byte through a pipe. A child with a user
namespace waits for that byte.

A step of the machine is one system call of one of the two, with its answer. A call
that succeeds leaves an `Effect`; `World.done` collects them, so that it says what has
really been applied at any moment of any interleaving.
-/

namespace ExeCell.Sandbox

/-- The answer of a system call: its non-negative result, or `errno`. -/
inductive Answer where
  | ok (value : Nat)
  | fail (error : Errno)
  deriving DecidableEq, Repr

def Answer.isOk : Answer → Bool
  | .ok _ => true
  | .fail _ => false

inductive Namespace where
  | user
  | mount
  | net
  deriving DecidableEq, Repr

inductive MountFlag where
  | nosuid
  | nodev
  | noexec
  | rdonly
  | remount
  | bind
  | recursive
  | «private»
  deriving DecidableEq, Repr

inductive Resource where
  | cpu
  | addressSpace
  | processes
  | fileSize
  deriving DecidableEq, Repr

/-- The single system calls the child makes. -/
inductive Call where
  | setpgid
  | getppidIsParent
  | setParentDeathSignal
  | getppidUnchanged
  | unshare (kind : Namespace)
  | mount (source target type : Text) (flags : List MountFlag) (data : Text)
  | chroot (path : Text)
  | chdir (path : Text)
  | capset
  | setNoNewPrivs
  | seccomp (allowlist : List Int)
  | setrlimit (resource : Resource) (limit : Nat)
  | setresgid (id : Nat)
  | setresuid (id : Nat)
  | clearenv
  | setenv (name value : Text)
  deriving DecidableEq, Repr

/-- What has been applied: a call that succeeded, a file that `write_file` has written,
an id map that a setuid helper has installed. -/
inductive Effect where
  | called (call : Call)
  | wrote (path value : Text)
  | mapped (tool : Text)
  deriving DecidableEq, Repr

/-! ## Operations -/

/-- Where an operation of several system calls stands. -/
inductive Progress where
  | start
  | writing (offset : Nat)
  | closing (ok : Bool)
  | creating
  deriving DecidableEq, Repr

inductive OpResult where
  | running (progress : Progress)
  | finished (ok : Bool)
  deriving DecidableEq, Repr

/-- `write_file`: open, write until everything is written, close. -/
def writeFileStep (value : Text) : Progress → Answer → OpResult
  | .start, .ok _ => if value = [] then .running (.closing true) else .running (.writing 0)
  | .start, .fail _ => .finished false
  | .writing offset, .ok written =>
    if offset + written < value.length then .running (.writing (offset + written))
    else .running (.closing true)
  | .writing offset, .fail error =>
    if error = eintr then .running (.writing offset) else .running (.closing false)
  | .closing ok, .ok _ => .finished ok
  | .closing _, .fail _ => .finished false
  | .creating, _ => .finished false

/-- The lambda `prepare` of `mount_runtime_filesystems`: `lstat`, whose answer is `ok 1`
for a directory, and `mkdir` when there is nothing at the path. -/
def prepareStep : Progress → Answer → OpResult
  | .start, .ok isDirectory => .finished (isDirectory = 1)
  | .start, .fail error => if error = enoent then .running .creating else .finished false
  | .creating, .ok _ => .finished true
  | .creating, .fail _ => .finished false
  | .writing _, _ => .finished false
  | .closing _, _ => .finished false

/-- An operation of the child. -/
inductive ChildOp where
  /-- A call whose failure ends the child. -/
  | checked (call : Call)
  /-- A call whose result is ignored. -/
  | unchecked (call : Call)
  | writeFile (path value : Text)
  | prepare (path : Text)
  /-- `read` of one byte from the pipe. -/
  | awaitReady
  deriving DecidableEq, Repr

namespace ChildOp

def step (op : ChildOp) (progress : Progress) (answer : Answer) : OpResult :=
  match op with
  | checked _ => .finished answer.isOk
  | unchecked _ => .finished answer.isOk
  | writeFile _ value => writeFileStep value progress answer
  | prepare _ => prepareStep progress answer
  | awaitReady => .finished (answer = .ok 1)

/-- What the operation has applied once it has succeeded. -/
def effects : ChildOp → List Effect
  | checked call => [.called call]
  | unchecked call => [.called call]
  | writeFile path value => [.wrote path value]
  | prepare _ => []
  | awaitReady => []

/-- Whether the child goes on when the operation has failed. -/
def ignoresFailure : ChildOp → Bool
  | unchecked _ => true
  | _ => false

end ChildOp

/-! ## The child -/

/-- `mount_runtime_filesystems`, called only with a root file system. -/
def mountRuntimeFilesystems (config : Config) : List ChildOp :=
  (if config.mountProc then
    [.prepare "/proc".toList,
      .checked (.mount "proc".toList "/proc".toList "proc".toList [.nosuid, .nodev, .noexec]
        "hidepid=2".toList)]
  else [] : List ChildOp) ++
  (if config.mountRun then
    [.prepare "/run".toList,
      .checked (.mount "tmpfs".toList "/run".toList "tmpfs".toList [.nosuid, .nodev, .noexec]
        "size=16m,mode=0755".toList)]
  else [] : List ChildOp)

/-- `set_limits`. -/
def setLimits (config : Config) : List ChildOp :=
  (if config.cpuSeconds ≠ 0 then [.checked (.setrlimit .cpu config.cpuSeconds)]
    else [] : List ChildOp) ++
  (if config.addressSpaceBytes ≠ 0 then
    [.checked (.setrlimit .addressSpace config.addressSpaceBytes)] else [] : List ChildOp) ++
  (if config.maxProcesses ≠ 0 then
    [.checked (.setrlimit .processes config.maxProcesses)] else [] : List ChildOp) ++
  (if config.maxFileBytes ≠ 0 then
    [.checked (.setrlimit .fileSize config.maxFileBytes)] else [] : List ChildOp)

/-- `clean_environment`. -/
def cleanEnvironment : List ChildOp :=
  [.checked .clearenv,
    .checked (.setenv "PATH".toList "/usr/bin:/bin".toList),
    .checked (.setenv "HOME".toList "/tmp".toList),
    .checked (.setenv "TMPDIR".toList "/tmp".toList),
    .checked (.setenv "LANG".toList "C".toList),
    .checked (.setenv "LC_ALL".toList "C".toList)]

def mountPrivate : Call := .mount [] "/".toList [] [.recursive, .private] []
def bindRoot : Call := .mount "/".toList "/".toList [] [.bind, .recursive] []
def remountRootReadOnly : Call :=
  .mount [] "/".toList [] [.bind, .remount, .rdonly, .recursive] []
def mountTmp : Call :=
  .mount "tmpfs".toList "/tmp".toList "tmpfs".toList [.nosuid, .nodev] "size=64m,inode32".toList

/-- The child's side of `sandbox::run`, up to `execvp` or `trace::run`. -/
def childProgram (config : Config) : List ChildOp :=
  ([.checked .setpgid, .checked .getppidIsParent, .checked .setParentDeathSignal,
    .checked .getppidUnchanged] : List ChildOp) ++
  (if config.userNamespace then
    [.checked (.unshare .user), .writeFile "/proc/self/setgroups".toList "deny\n".toList,
      .awaitReady] else [] : List ChildOp) ++
  (if config.mountNamespace then
    ([.checked (.unshare .mount), .checked mountPrivate] : List ChildOp) ++
      (if config.readOnlyRoot then [.checked bindRoot, .checked remountRootReadOnly]
        else [] : List ChildOp)
  else [] : List ChildOp) ++
  (if config.rootfs ≠ [] then
    ([.checked (.chroot config.rootfs), .checked (.chdir "/".toList)] : List ChildOp) ++
      mountRuntimeFilesystems config
  else [] : List ChildOp) ++
  (if config.mountNamespace then [.checked mountTmp] else [] : List ChildOp) ++
  (if config.workingDirectory ≠ [] then [.checked (.chdir config.workingDirectory)]
    else [] : List ChildOp) ++
  (if config.networkNamespace then [.checked (.unshare .net)] else [] : List ChildOp) ++
  (if config.dropCapabilities then [.unchecked .capset] else [] : List ChildOp) ++
  (if config.noNewPrivileges then [.checked .setNoNewPrivs] else [] : List ChildOp) ++
  (if config.seccompAllowlist ≠ [] then [.checked (.seccomp config.seccompAllowlist)]
    else [] : List ChildOp) ++
  setLimits config ++
  (if config.dropToUnprivilegedUser then [.checked (.setresgid 1000), .checked (.setresuid 1000)]
    else [] : List ChildOp) ++
  (if config.cleanEnvironment then cleanEnvironment else [])

/-! ## The parent -/

/-- The process ids and credentials that appear in the texts the parent writes. -/
structure Ids where
  pid : Nat
  uid : Nat
  gid : Nat
  deriving DecidableEq, Repr

/-- The text that both maps get when the helpers have failed. -/
def idMapping (config : Config) (ids : Ids) : Text :=
  "0 ".toList ++ Text.ofNat ids.uid ++ " 1\n".toList ++
    if config.dropToUnprivilegedUser then "1000 ".toList ++ Text.ofNat ids.uid ++ " 1\n".toList
    else []

def procFile (ids : Ids) (name : Text) : Text :=
  "/proc/".toList ++ Text.ofNat ids.pid ++ '/' :: name

/-- Where `setup_user_namespace` stands: it tries the two setuid helpers, each a fork and
a wait, and falls back to writing both maps itself. -/
inductive IdProgress where
  | forkUid
  | waitUid
  | forkGid
  | waitGid
  | writeUid (progress : Progress)
  | writeGid (progress : Progress)
  deriving DecidableEq, Repr

/-- `waitpid` returned the helper and it exited with status 0. -/
def helperSucceeded : Answer → Bool
  | .ok status => WaitStatus.ifExited status && WaitStatus.exitStatus status = 0
  | .fail _ => false

/-- An operation of the parent. -/
inductive ParentOp where
  | setpgid
  | writeFile (path value : Text)
  | mapIds
  | signalReady
  | closeReady
  deriving DecidableEq, Repr

/-- `configure_cgroup`. -/
def configureCgroup (budget : CgroupBudget) (ids : Ids) : List ParentOp :=
  if budget.path = [] then []
  else
    let file (name : String) := LexicalPath.append budget.path name.toList
    (if budget.memoryMax ≠ 0 then
      [.writeFile (file "memory.max") (Text.ofNat budget.memoryMax)] else [] : List ParentOp) ++
    (if budget.pidsMax ≠ 0 then
      [.writeFile (file "pids.max") (Text.ofNat budget.pidsMax)] else [] : List ParentOp) ++
    (if budget.cpuQuotaUs ≠ 0 then
      [.writeFile (file "cpu.max")
        (Text.ofNat budget.cpuQuotaUs ++ ' ' :: Text.ofNat budget.cpuPeriodUs)]
      else [] : List ParentOp) ++
    [.writeFile (file "cgroup.procs") (Text.ofNat ids.pid)]

/-- The parent's side of `sandbox::run` before it sends the byte. -/
def parentSetup (config : Config) (ids : Ids) : List ParentOp :=
  [.setpgid] ++ configureCgroup config.cgroup ids ++
    (if config.userNamespace then [.mapIds] else [])

/-- The parent's side of `sandbox::run`, up to the wait for the child. -/
def parentProgram (config : Config) (ids : Ids) : List ParentOp :=
  parentSetup config ids ++ [.signalReady, .closeReady]

/-- The state of the operation the parent is in. -/
inductive ParentProgress where
  | plain (progress : Progress)
  | ids (progress : IdProgress)
  deriving DecidableEq, Repr

inductive ParentResult where
  | running (progress : ParentProgress) (effects : List Effect)
  | finished (ok : Bool) (effects : List Effect)
  deriving DecidableEq, Repr

/-- Continue with a part of `setup_user_namespace` that writes a file. -/
def writeMap (path value : Text) (resume : Progress → IdProgress) (next : ParentResult)
    (progress : Progress) (answer : Answer) : ParentResult :=
  match writeFileStep value progress answer with
  | .running progress => .running (.ids (resume progress)) []
  | .finished false => .finished false []
  | .finished true =>
    match next with
    | .running progress effects => .running progress (.wrote path value :: effects)
    | .finished ok effects => .finished ok (.wrote path value :: effects)

/-- `setup_user_namespace`. -/
def mapIdsStep (config : Config) (ids : Ids) : IdProgress → Answer → ParentResult
  | .forkUid, .ok _ => .running (.ids .waitUid) []
  | .forkUid, .fail _ => .running (.ids (.writeUid .start)) []
  | .waitUid, answer =>
    if helperSucceeded answer then .running (.ids .forkGid) [.mapped "newuidmap".toList]
    else .running (.ids (.writeUid .start)) []
  | .forkGid, .ok _ => .running (.ids .waitGid) []
  | .forkGid, .fail _ => .running (.ids (.writeUid .start)) []
  | .waitGid, answer =>
    if helperSucceeded answer then .finished true [.mapped "newgidmap".toList]
    else .running (.ids (.writeUid .start)) []
  | .writeUid progress, answer =>
    writeMap (procFile ids "uid_map".toList) (idMapping config ids) .writeUid
      (.running (.ids (.writeGid .start)) []) progress answer
  | .writeGid progress, answer =>
    writeMap (procFile ids "gid_map".toList) (idMapping config ids) .writeGid
      (.finished true []) progress answer

def ParentOp.step (config : Config) (ids : Ids) (op : ParentOp) (progress : ParentProgress)
    (answer : Answer) : ParentResult :=
  match op, progress with
  | .setpgid, _ =>
    .finished (match answer with
      | .ok _ => true
      | .fail error => error = eacces ∨ error = esrch) []
  | .writeFile path value, .plain progress =>
    match writeFileStep value progress answer with
    | .running progress => .running (.plain progress) []
    | .finished true => .finished true [.wrote path value]
    | .finished false => .finished false []
  | .mapIds, .ids progress => mapIdsStep config ids progress answer
  -- the results of writing the byte and of closing the pipe are ignored
  | .signalReady, _ => .finished true []
  | .closeReady, _ => .finished true []
  | .writeFile _ _, .ids _ => .finished false []
  | .mapIds, .plain _ => .finished false []

def ParentOp.start : ParentOp → ParentProgress
  | .mapIds => .ids .forkUid
  | _ => .plain .start

/-! ## The two processes together -/

inductive ChildState where
  /-- The child is working on the first of these operations; with none left it is at
  `execvp` or `trace::run`. -/
  | running (ops : List ChildOp) (progress : Progress)
  | exited
  | killed
  deriving DecidableEq, Repr

inductive ParentState where
  | running (ops : List ParentOp) (progress : ParentProgress)
  /-- A failed operation: the parent has killed the child and returns `EXIT_FAILURE`. -/
  | failed
  deriving DecidableEq, Repr

structure World where
  config : Config
  ids : Ids
  child : ChildState
  parent : ParentState
  /-- The byte is in the pipe. -/
  ready : Bool := false
  /-- The parent has closed its end of the pipe. -/
  closed : Bool := false
  done : List Effect := []
  deriving DecidableEq, Repr

/-- The child has passed its whole setup and starts the target. -/
def World.AtTarget (w : World) : Prop := ∃ progress, w.child = .running [] progress

/-- `sandbox::run` up to and including its fork: a rejected configuration, or a failed
`pipe` or `fork`, starts no child. -/
def launch (host : Host) (config : Config) (ids : Ids) (pipe fork : Bool) : Option World :=
  match validate host config with
  | .error _ => none
  | .ok _ =>
    if pipe && fork then
      some { config := config, ids := ids,
             child := .running (childProgram config) .start,
             parent := .running (parentProgram config ids) ParentOp.setpgid.start }
    else none

/-- Who moves, and the answer of its system call. -/
inductive Move where
  | child (answer : Answer)
  | parent (answer : Answer)
  deriving DecidableEq, Repr

/-- `read` on the pipe returns the byte only when it is there, and the end of the file
only when there is no byte and the parent has closed its end. -/
def World.readable (w : World) (op : ChildOp) (answer : Answer) : Bool :=
  match op, answer with
  | .awaitReady, .ok 0 => w.closed && !w.ready
  | .awaitReady, .ok _ => w.ready
  | _, _ => true

def childStep (w : World) (answer : Answer) : Option World :=
  match w.child with
  | .running (op :: ops) progress =>
    if w.readable op answer then
      match op.step progress answer with
      | .running progress => some { w with child := .running (op :: ops) progress }
      | .finished true =>
        some { w with child := .running ops .start, done := w.done ++ op.effects }
      | .finished false =>
        if op.ignoresFailure then some { w with child := .running ops .start }
        else some { w with child := .exited }
    else none
  | _ => none

def ParentOp.startOf : List ParentOp → ParentProgress
  | [] => .plain .start
  | op :: _ => op.start

def parentStep (w : World) (answer : Answer) : Option World :=
  match w.parent with
  | .running (op :: ops) progress =>
    match op.step w.config w.ids progress answer with
    | .running progress effects =>
      some { w with parent := .running (op :: ops) progress, done := w.done ++ effects }
    | .finished true effects =>
      some { w with
        parent := .running ops (ParentOp.startOf ops)
        ready := w.ready || (op = .signalReady && answer.isOk)
        closed := w.closed || op = .closeReady
        done := w.done ++ effects }
    | .finished false effects =>
      some { w with parent := .failed, child := .killed, done := w.done ++ effects }
  | _ => none

/-- One system call of one of the two processes. -/
def setupStep (w : World) (move : Move) : Option (Unit × World) :=
  match move with
  | .child answer => (childStep w answer).map fun w => ((), w)
  | .parent answer => (parentStep w answer).map fun w => ((), w)

end ExeCell.Sandbox
