import ExeCell.Core.Text

/-!
# Trace events

`event::Event` is a variant of plain records. Every alternative ends in a context,
the task and the sequence number that `trace::run` fills in when it emits the event.
-/

namespace ExeCell

/-- `event::EventContext`. -/
structure EventContext where
  pid : Pid := 0
  sequence : Nat := 0
  deriving DecidableEq, Repr

/-- The alternatives of `event::Event` without their contexts. -/
inductive Payload where
  | fileOpened (fd : Int) (path : Text)
  | fileRead (fd : Int) (path : Text) (bytes : Nat)
  | fileWritten (fd : Int) (path : Text) (bytes : Nat)
  | fileClosed (fd : Int) (path : Text)
  | fileDeleted (path : Text)
  | fileRenamed (fromPath toPath : Text)
  | directoryCreated (path : Text)
  | fileModeChanged (path : Text) (mode : Nat)
  | socketCreated (fd domain type protocol : Int)
  | networkConnected (fd : Int) (endpoint : Text)
  | networkBound (fd : Int) (endpoint : Text)
  | networkListening (fd backlog : Int)
  | networkAccepted (fd : Int) (endpoint : Text)
  | syscallFailed (pid : Pid) (syscall : Text) (error : Int)
  | traceStarted (pid : Pid)
  | traceFinished (pid : Pid) (status : Int) (signaled : Bool)
  | policyViolation (rule resource : Text)
  | processSpawned (pid parentPid : Pid)
  | processExec (pid : Pid) (path : Text)
  | processExited (pid : Pid) (status : Int) (signaled : Bool)
  deriving DecidableEq, Repr

/-- An event: one alternative together with its context. -/
structure Event where
  payload : Payload
  context : EventContext := {}
  deriving DecidableEq, Repr

namespace Payload

/-- The `path` field of the alternatives that have one. -/
def path? : Payload → Option Text
  | fileOpened _ p => some p
  | fileRead _ p _ => some p
  | fileWritten _ p _ => some p
  | fileClosed _ p => some p
  | fileDeleted p => some p
  | directoryCreated p => some p
  | fileModeChanged p _ => some p
  | processExec _ p => some p
  | _ => none

/-- The `endpoint` field of the alternatives that have one. -/
def endpoint? : Payload → Option Text
  | networkConnected _ e => some e
  | networkBound _ e => some e
  | networkAccepted _ e => some e
  | _ => none

end Payload

end ExeCell
