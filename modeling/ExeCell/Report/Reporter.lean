import ExeCell.Core.Event

/-!
# Reporters

`report::Reporter` is an interface: something that takes events one by one and may
ask the tracer to stop. A reporter is modelled by its operations on a state `ρ`.

Two of them come with the interface. `report::Summary` counts the events of six kinds, and
`report::TerminalReporter` writes a line for each event, but none for the beginning and the
end of a trace. What it has written is its state.
-/

namespace ExeCell.Report

structure Reporter (ρ : Type) where
  report : ρ → Event → ρ
  /-- `stop_requested`, which is `false` unless a reporter overrides it. -/
  stopRequested : ρ → Bool := fun _ => false

/-! ## The summary of a trace -/

structure Summary where
  filesOpened : Nat := 0
  filesRead : Nat := 0
  filesWritten : Nat := 0
  processesSpawned : Nat := 0
  networkAttempts : Nat := 0
  failures : Nat := 0
  deriving DecidableEq, Repr

/-- `++` on a `std::size_t`. -/
def increment (count : Nat) : Nat := (count + 1) % 2 ^ 64

namespace Summary

/-- `Summary::report`. -/
def report (summary : Summary) (event : Event) : Summary :=
  match event.payload with
  | .fileOpened _ _ => { summary with filesOpened := increment summary.filesOpened }
  | .fileRead _ _ _ => { summary with filesRead := increment summary.filesRead }
  | .fileWritten _ _ _ => { summary with filesWritten := increment summary.filesWritten }
  | .processSpawned _ _ => { summary with processesSpawned := increment summary.processesSpawned }
  | .networkConnected _ _ | .networkBound _ _ | .networkAccepted _ _ =>
    { summary with networkAttempts := increment summary.networkAttempts }
  | .syscallFailed _ _ _ => { summary with failures := increment summary.failures }
  | _ => summary

/-- `Summary::print`. -/
def print (summary : Summary) : Text :=
  "ExeCell Inspection Report\n".toList ++
    "Files opened: ".toList ++ Text.ofNat summary.filesOpened ++ ['\n'] ++
    "Files read: ".toList ++ Text.ofNat summary.filesRead ++ ['\n'] ++
    "Files written: ".toList ++ Text.ofNat summary.filesWritten ++ ['\n'] ++
    "Processes spawned: ".toList ++ Text.ofNat summary.processesSpawned ++ ['\n'] ++
    "Network attempts: ".toList ++ Text.ofNat summary.networkAttempts ++ ['\n'] ++
    "Failures: ".toList ++ Text.ofNat summary.failures ++ ['\n']

end Summary

/-! ## Events on a terminal -/

namespace TerminalReporter

/-- The line of an event. -/
def line : Payload → Text
  | .fileOpened fd path =>
    "[FILE] OPEN  \"".toList ++ path ++ "\" fd=".toList ++ Text.ofInt fd ++ ['\n']
  | .fileRead _ path bytes =>
    "[FILE] READ  \"".toList ++ path ++ "\" bytes=".toList ++ Text.ofNat bytes ++ ['\n']
  | .fileWritten _ path bytes =>
    "[FILE] WRITE \"".toList ++ path ++ "\" bytes=".toList ++ Text.ofNat bytes ++ ['\n']
  | .fileClosed fd path =>
    "[FILE] CLOSE \"".toList ++ path ++ "\" fd=".toList ++ Text.ofInt fd ++ ['\n']
  | .fileDeleted path => "[FILE] DELETE \"".toList ++ path ++ "\"\n".toList
  | .fileRenamed fromPath toPath =>
    "[FILE] RENAME \"".toList ++ fromPath ++ "\" -> \"".toList ++ toPath ++ "\"\n".toList
  | .directoryCreated path => "[FILE] MKDIR  \"".toList ++ path ++ "\"\n".toList
  | .fileModeChanged path mode =>
    "[FILE] CHMOD  \"".toList ++ path ++ "\" mode=".toList ++ Text.ofNat mode ++ ['\n']
  | .socketCreated fd domain _ _ =>
    "[NET] SOCKET fd=".toList ++ Text.ofInt fd ++ " domain=".toList ++ Text.ofInt domain ++ ['\n']
  | .networkConnected fd endpoint =>
    "[NET] CONNECT ".toList ++ endpoint ++ " fd=".toList ++ Text.ofInt fd ++ ['\n']
  | .networkBound fd endpoint =>
    "[NET] BIND ".toList ++ endpoint ++ " fd=".toList ++ Text.ofInt fd ++ ['\n']
  | .networkListening fd backlog =>
    "[NET] LISTEN fd=".toList ++ Text.ofInt fd ++ " backlog=".toList ++ Text.ofInt backlog ++ ['\n']
  | .networkAccepted fd endpoint =>
    "[NET] ACCEPT ".toList ++ endpoint ++ " fd=".toList ++ Text.ofInt fd ++ ['\n']
  | .syscallFailed pid syscall error =>
    "[FAIL] ".toList ++ syscall ++ " errno=".toList ++ Text.ofInt error ++ " pid=".toList ++
      Text.ofInt pid ++ ['\n']
  | .processSpawned pid parentPid =>
    "[PROC] SPAWN pid=".toList ++ Text.ofInt pid ++ " parent=".toList ++ Text.ofInt parentPid ++
      ['\n']
  | .processExec pid path =>
    "[PROC] EXEC  \"".toList ++ path ++ "\" pid=".toList ++ Text.ofInt pid ++ ['\n']
  | .processExited pid status signaled =>
    "[PROC] EXIT  pid=".toList ++ Text.ofInt pid ++ " status=".toList ++ Text.ofInt status ++
      (if signaled then " signal".toList else []) ++ ['\n']
  | .policyViolation rule resource =>
    "[POLICY] DENY rule=".toList ++ rule ++ " resource=\"".toList ++ resource ++ "\"\n".toList
  | .traceStarted _ | .traceFinished .. => []

/-- `TerminalReporter::report`. -/
def report (written : Text) (event : Event) : Text := written ++ line event.payload

theorem foldl_report (written : Text) (events : List Event) :
    events.foldl report written = written ++ events.flatMap fun event => line event.payload := by
  induction events generalizing written with
  | nil => exact (List.append_nil written).symm
  | cons event events ih =>
    rw [List.foldl_cons, ih, report, List.append_assoc, List.flatMap_cons]

end TerminalReporter

end ExeCell.Report
