import ExeCell.Report.Reporter

/-!
# Events as JSON

`report::JsonReporter` writes an array with one object per event. Which fields an object
has follows from the fields of the event's alternative, in a fixed order.
-/

namespace ExeCell

namespace Payload

def fd? : Payload → Option Int
  | fileOpened fd _ => some fd
  | fileRead fd _ _ => some fd
  | fileWritten fd _ _ => some fd
  | fileClosed fd _ => some fd
  | socketCreated fd _ _ _ => some fd
  | networkConnected fd _ => some fd
  | networkBound fd _ => some fd
  | networkListening fd _ => some fd
  | networkAccepted fd _ => some fd
  | _ => none

def bytes? : Payload → Option Nat
  | fileRead _ _ bytes => some bytes
  | fileWritten _ _ bytes => some bytes
  | _ => none

def mode? : Payload → Option Nat
  | fileModeChanged _ mode => some mode
  | _ => none

/-- The fields `rule` and `resource`. -/
def violation? : Payload → Option (Text × Text)
  | policyViolation rule resource => some (rule, resource)
  | _ => none

/-- The fields `syscall` and `error`. -/
def failure? : Payload → Option (Text × Int)
  | syscallFailed _ syscall error => some (syscall, error)
  | _ => none

/-- The fields `status` and `signaled`. -/
def ending? : Payload → Option (Int × Bool)
  | traceFinished _ status signaled => some (status, signaled)
  | processExited _ status signaled => some (status, signaled)
  | _ => none

def parentPid? : Payload → Option Pid
  | processSpawned _ parentPid => some parentPid
  | _ => none

end Payload

namespace Report

/-- One byte of a string literal. Control bytes are written in hexadecimal without
padding. -/
def escapeJsonChar (c : Char) : Text :=
  if c = '"' then ['\\', '"']
  else if c = '\\' then ['\\', '\\']
  else if c = '\n' then ['\\', 'n']
  else if c = '\r' then ['\\', 'r']
  else if c = '\t' then ['\\', 't']
  else if c.toNat < 0x20 then "\\u00".toList ++ Nat.toDigits 16 c.toNat
  else [c]

/-- `write_json_string`. -/
def writeJsonString (value : Text) : Text :=
  '"' :: value.flatMap escapeJsonChar ++ ['"']

/-- The `type` of an object. `FileModeChanged` has no name of its own. -/
def eventType : Payload → Text
  | .fileOpened _ _ => "file.opened".toList
  | .fileRead _ _ _ => "file.read".toList
  | .fileWritten _ _ _ => "file.written".toList
  | .fileClosed _ _ => "file.closed".toList
  | .fileDeleted _ => "file.deleted".toList
  | .fileRenamed _ _ => "file.renamed".toList
  | .directoryCreated _ => "directory.created".toList
  | .fileModeChanged _ _ => "unknown".toList
  | .socketCreated _ _ _ _ => "socket.created".toList
  | .networkConnected _ _ => "network.connected".toList
  | .networkBound _ _ => "network.bound".toList
  | .networkListening _ _ => "network.listening".toList
  | .networkAccepted _ _ => "network.accepted".toList
  | .syscallFailed _ _ _ => "syscall.failed".toList
  | .processSpawned _ _ => "process.spawned".toList
  | .processExec _ _ => "process.exec".toList
  | .processExited _ _ _ => "process.exited".toList
  | .traceStarted _ => "trace.started".toList
  | .traceFinished _ _ _ => "trace.finished".toList
  | .policyViolation _ _ => "policy.violation".toList

/-- The text of a field that an alternative may have. -/
def field {α : Type} (value : Option α) (text : α → Text) : Text :=
  match value with
  | none => []
  | some value => text value

/-- The object of one event. -/
def eventJson (event : Event) : Text :=
  let payload := event.payload
  "\x7b\"schema_version\":1,\"type\":".toList ++ writeJsonString (eventType payload) ++
    ",\"pid\":".toList ++ Text.ofInt event.context.pid ++
    ",\"sequence\":".toList ++ Text.ofNat event.context.sequence ++
    field payload.path? (fun path => ",\"path\":".toList ++ writeJsonString path) ++
    field payload.bytes? (fun bytes => ",\"bytes\":".toList ++ Text.ofNat bytes) ++
    field payload.fd? (fun fd => ",\"fd\":".toList ++ Text.ofInt fd) ++
    field payload.mode? (fun mode => ",\"mode\":".toList ++ Text.ofNat mode) ++
    field payload.endpoint? (fun endpoint =>
      ",\"endpoint\":".toList ++ writeJsonString endpoint) ++
    field payload.violation? (fun (rule, resource) =>
      ",\"rule\":".toList ++ writeJsonString rule ++
        ",\"resource\":".toList ++ writeJsonString resource) ++
    field payload.failure? (fun (syscall, error) =>
      ",\"syscall\":".toList ++ writeJsonString syscall ++
        ",\"error\":".toList ++ Text.ofInt error) ++
    field payload.ending? (fun (status, signaled) =>
      ",\"status\":".toList ++ Text.ofInt status ++
        ",\"signaled\":".toList ++ Text.ofBool signaled) ++
    field payload.parentPid? (fun pid => ",\"parent_pid\":".toList ++ Text.ofInt pid) ++
    ['\x7d']

structure JsonReporter where
  output : Text := []
  first : Bool := true
  finished : Bool := false
  deriving DecidableEq, Repr

namespace JsonReporter

/-- `JsonReporter::report`. -/
def report (s : JsonReporter) (event : Event) : JsonReporter :=
  if s.finished then s
  else
    { s with
      output := s.output ++ (if s.first then ['['] else [',']) ++ eventJson event
      first := false }

/-- `JsonReporter::finish`. -/
def finish (s : JsonReporter) : JsonReporter :=
  if s.finished then s else { s with output := s.output ++ [']'], finished := true }

end JsonReporter

end Report

end ExeCell
