import ExeCell.Report.Reporter

/-!
# The trace lines on standard error

`StderrTraceReporter`, the reporter of a sandbox with `trace_events`: each event becomes
one marked line on the standard error that the target writes to as well.
-/

namespace ExeCell.Sandbox

open Report

/-- The kind that a line names. -/
def traceKind : Payload → Text
  | .fileOpened _ _ => "file_opened".toList
  | .fileRead _ _ _ => "file_read".toList
  | .fileWritten _ _ _ => "file_written".toList
  | .networkConnected _ _ => "network_connected".toList
  | .networkBound _ _ => "network_bound".toList
  | .processExec _ _ => "process_exec".toList
  | .processSpawned _ _ => "process_spawned".toList
  | .processExited _ _ _ => "process_exited".toList
  | _ => "event".toList

/-- The line of an event. -/
def traceLine (event : Event) : Text :=
  "EXECELL_TRACE:\x7b\"type\":\"".toList ++ traceKind event.payload ++ "\",\"pid\":".toList ++
    Text.ofInt event.context.pid ++ ",\"sequence\":".toList ++
    Text.ofNat event.context.sequence ++ "\x7d\n".toList

/-- What the calls of `write` for one line answer: the number of bytes written, or an
error. The line is given up at the first call that fails or writes nothing, except that
an interrupted call is repeated. -/
inductive WriteAnswer where
  | wrote (count : Nat)
  | fail (error : Errno)
  deriving DecidableEq, Repr

/-- The bytes of the line that reach the descriptor. -/
def writeLine : Text → List WriteAnswer → Text
  | _, [] => []
  | rest, answer :: answers =>
    if rest = [] then []
    else
      match answer with
      | .wrote 0 => []
      | .wrote (count + 1) =>
        rest.take (count + 1) ++ writeLine (rest.drop (count + 1)) answers
      | .fail error => if error = eintr then writeLine rest answers else []

/-- `StderrTraceReporter`: its state is what it has written to the descriptor. -/
def stderrTraceReporter (writes : Event → List WriteAnswer) : Reporter Text where
  report written event := written ++ writeLine (traceLine event) (writes event)

/-- A line is written completely by one call that takes all of it. -/
theorem writeLine_whole (line : Text) : writeLine line [.wrote line.length] = line := by
  cases line with
  | nil => rfl
  | cons c rest => simp [writeLine]

/-- With complete writes the reporter leaves the lines of its events. -/
theorem report_whole (events : List Event) (written : Text) :
    events.foldl (stderrTraceReporter fun event => [.wrote (traceLine event).length]).report
      written = written ++ events.flatMap traceLine := by
  induction events generalizing written with
  | nil => exact (List.append_nil _).symm
  | cons event events ih =>
    have hreport : (stderrTraceReporter fun event => [.wrote (traceLine event).length]).report
        written event = written ++ traceLine event :=
      congrArg (written ++ ·) (writeLine_whole (traceLine event))
    rw [List.foldl_cons, hreport, ih, List.flatMap_cons, List.append_assoc]

end ExeCell.Sandbox
