import ExeCell.Lib.LexicalPath
import ExeCell.Lib.Search
import ExeCell.Policy.Engine
import ExeCell.Report.Json
import ExeCell.Risk.Engine
import ExeCell.Sandbox.Outcome

/-!
# The analyze workflow

`execell analyze`: the options are read from the command line, `analyze::run` runs the
target under the tracer or in a sandbox and has the risk engine judge what was seen, and
the exit code is read off the JSON text of the result.
-/

namespace ExeCell.Analyze

open Report

inductive Format where
  | terminal
  | json
  deriving DecidableEq, Repr

/-- `analyze::Options`. The timeout is in seconds. -/
structure Options where
  format : Format := .terminal
  policy : Policy.Config := {}
  timeout : Int := 30
  outputLimit : Nat := 1048576
  sandbox : Bool := false
  sandboxConfig : Sandbox.Config := {}

/-- `analyze::Result`. -/
structure Result where
  exitStatus : Int := -1
  timedOut : Bool := false
  outputLimited : Bool := false
  session : LexicalPath.Path := []
  eventsJson : Text := []
  attestation : Text := []
  observedFindings : List Risk.Finding := []
  policyFindings : List Risk.Finding := []
  summary : Summary := {}
  assessment : Risk.Assessment := {}
  deriving DecidableEq, Repr

/-! ## The reporters -/

/-- The two reporters that `analyze::Reporter` passes every event to. -/
structure Sinks where
  summary : Summary := {}
  json : JsonReporter := {}
  deriving DecidableEq, Repr

/-- `analyze::Reporter`. -/
def sinks : Reporter Sinks where
  report s event := { summary := s.summary.report event, json := s.json.report event }

/-! ## Judging a run -/

/-- `assessment`. -/
def assessment (summary : Summary) (violations : List Policy.Violation) (status : Int)
    (timedOut outputLimited : Bool) : Risk.Assessment :=
  let engine := violations.foldl (fun engine violation =>
    Risk.Engine.reject engine "policy_violation".toList
      (violation.rule ++ ": ".toList ++ violation.resource)) ({} : Risk.Engine)
  let engine := if summary.networkAttempts ≠ 0 then
    engine.add "network_activity".toList 20 "target attempted network activity".toList else engine
  let engine := if summary.processesSpawned ≠ 0 then
    engine.add "child_process".toList 5 "target spawned a child process".toList else engine
  let engine := if summary.failures ≠ 0 then
    engine.add "failed_syscall".toList 10 "target generated failed system calls".toList else engine
  let engine := if timedOut then
    engine.reject "timeout".toList "analysis wall-clock limit exceeded".toList else engine
  let engine := if outputLimited then
    engine.reject "output_limit".toList "analysis output limit exceeded".toList else engine
  let engine := if status ≠ 0 then
    engine.reject "target_failure".toList
      ("target exited with status ".toList ++ Text.ofInt status) else engine
  engine.assess

/-- `verdict`. -/
def verdict (assessment : Risk.Assessment) : Text :=
  if assessment.action = .audit then "review".toList else assessment.action.text

/-! ## The report -/

/-- `string_json`. -/
def stringJson (value : Text) : Text :=
  let escape (c : Char) : Text :=
    (if c = '"' ∨ c = '\\' then ['\\'] else []) ++
      if c = '\n' then ['\\', 'n']
      else if c = '\r' then ['\\', 'r']
      else if c = '\t' then ['\\', 't']
      else [c]
  '"' :: value.flatMap escape ++ ['"']

/-- The objects of a list, with commas between them. -/
def objects (findings : List Risk.Finding) (object : Risk.Finding → Text) : Text :=
  List.intercalate [','] (findings.map object)

/-- A finding in the lists of observed findings and of policy findings. -/
def shortFinding (finding : Risk.Finding) : Text :=
  "\x7b\"id\":".toList ++ stringJson finding.id ++
    ",\"weight\":".toList ++ Text.ofInt finding.weight ++
    ",\"explanation\":".toList ++ stringJson finding.explanation ++ ['\x7d']

/-- A finding in the list of all findings. -/
def longFinding (finding : Risk.Finding) : Text :=
  "\x7b\"id\":".toList ++ stringJson finding.id ++
    ",\"resource\":".toList ++ stringJson finding.resource ++
    ",\"pid\":".toList ++ Text.ofInt finding.pid ++
    ",\"sequence\":".toList ++ Text.ofNat finding.sequence ++
    ",\"weight\":".toList ++ Text.ofInt finding.weight ++
    ",\"explanation\":".toList ++ stringJson finding.explanation ++ ['\x7d']

/-- The report behind the verdict. -/
def jsonBody (result : Result) : Text :=
  ",\"risk_level\":".toList ++ stringJson result.assessment.level.text ++
    ",\"risk_score\":".toList ++ Text.ofInt result.assessment.score ++
    ",\"exit_status\":".toList ++ Text.ofInt result.exitStatus ++
    ",\"timed_out\":".toList ++ Text.ofBool result.timedOut ++
    ",\"output_limited\":".toList ++ Text.ofBool result.outputLimited ++
    ",\"session\":".toList ++ stringJson result.session ++
    ",\"attestation\":".toList ++ stringJson result.attestation ++
    ",\"observed_findings\":[".toList ++ objects result.observedFindings shortFinding ++
    "],\"policy_findings\":[".toList ++ objects result.policyFindings shortFinding ++ [']'] ++
    ",\"findings\":[".toList ++ objects result.assessment.findings longFinding ++
    "],\"events\":".toList ++ result.eventsJson ++ ['\x7d']

/-- `json`. -/
def json (result : Result) : Text :=
  "\x7b\"schema_version\":2,\"verdict\":".toList ++ stringJson (verdict result.assessment) ++
    jsonBody result

/-- A path on an output stream is quoted. -/
def quoted (value : Text) : Text :=
  '"' :: value.flatMap (fun c => if c = '"' ∨ c = '\\' then ['\\', c] else [c]) ++ ['"']

/-- `print`. -/
def print (result : Result) : Text :=
  result.summary.print ++
    "Verdict: ".toList ++ verdict result.assessment ++
    "\nRisk level: ".toList ++ result.assessment.level.text ++
    "\nRisk score: ".toList ++ Text.ofInt result.assessment.score ++
    "\nSession: ".toList ++ quoted result.session ++
    "\nAttestation: ".toList ++ result.attestation ++
    "\nObserved findings: ".toList ++ Text.ofNat result.observedFindings.length ++
    "\nPolicy findings: ".toList ++ Text.ofNat result.policyFindings.length ++
    "\nFindings:\n".toList ++
    result.assessment.findings.flatMap fun finding =>
      "- ".toList ++ finding.id ++ " (".toList ++ Text.ofInt finding.weight ++ "): ".toList ++
        finding.explanation ++ ['\n']

/-! ## Running the target -/

/-- What the system answers to `analyze::run`. -/
structure Env where
  /-- `temp_directory_path`, which throws when there is none. -/
  tempDirectory : Option LexicalPath.Path := some "/tmp".toList
  pid : Nat := 4000
  /-- `create_directories` makes, or finds, the session directory. -/
  sessionCreated : Bool := true
  /-- The calls that turn the standard output away. -/
  dup : Bool := true
  openNull : Bool := true
  dup2 : Bool := true
  trace : Trace.TraceEnv
  capture : Sandbox.CaptureRun

/-- `session_path`: the empty path on an error, `none` when it throws. -/
def Env.sessionPath (env : Env) : Option LexicalPath.Path :=
  env.tempDirectory.map fun directory =>
    if env.sessionCreated then
      LexicalPath.append directory ("execell-session-".toList ++ Text.ofNat env.pid)
    else []

/-- The standard output is out of the way of a JSON report. -/
def Env.redirected (env : Env) (format : Format) : Bool :=
  format ≠ .json || env.dup && env.openNull && env.dup2

/-- What the back end leaves to be judged. -/
structure Measured where
  exitStatus : Int
  timedOut : Bool := false
  outputLimited : Bool := false
  attestation : Text
  policy : Policy.Front Sinks

/-- The part of `run` between the reporters and the assessment: one of the two back ends.
A sandboxed target is run without any reporter. -/
def measure (args : List Text) (options : Options) (env : Env) : Option Measured :=
  let policy : Policy.Front Sinks := { engine := { config := options.policy }, downstream := {} }
  if options.sandbox then
    (env.capture.captured options.sandboxConfig args options.outputLimit).map fun captured =>
      { exitStatus := captured.status
        timedOut := captured.timedOut
        outputLimited := captured.outputLimited
        attestation := Sandbox.attestation options.sandboxConfig
        policy := policy }
  else
    let attestation := "backend=ptrace; sandbox=false; policy=observer".toList
    if env.redirected options.format then
      (Trace.run (Policy.reporter sinks) policy env.trace).map fun (status, policy) =>
        { exitStatus := status, attestation := attestation, policy := policy }
    else some { exitStatus := 125, attestation := attestation, policy := policy }

/-- The lambda `append_event`. -/
def appendEvent (eventsJson type : Text) : Text :=
  if eventsJson.length < 2 then eventsJson
  else
    let shorter := eventsJson.dropLast
    (if shorter ≠ ['['] then shorter ++ [','] else shorter) ++
      "\x7b\"schema_version\":1,\"type\":\"".toList ++ type ++
      "\",\"pid\":0,\"sequence\":0\x7d]".toList

/-- A finding about the policy takes the evidence of the first violation. -/
def withEvidence (violations : List Policy.Violation) (finding : Risk.Finding) : Risk.Finding :=
  match violations with
  | [] => finding
  | violation :: _ =>
    { finding with
      resource := violation.resource
      pid := violation.context.pid
      sequence := violation.context.sequence }

/-- The part of `run` after the back end. -/
def conclude (session : LexicalPath.Path) (measured : Measured) : Result :=
  let violations := measured.policy.engine.violations
  let sinks := measured.policy.downstream
  let assessed := assessment sinks.summary violations measured.exitStatus measured.timedOut
    measured.outputLimited
  let isPolicy (finding : Risk.Finding) : Bool := finding.id = "policy_violation".toList
  let events := sinks.json.finish.output
  let events := if measured.timedOut then appendEvent events "analysis.timeout".toList else events
  let events :=
    if measured.outputLimited then appendEvent events "analysis.output_limit".toList else events
  { exitStatus := measured.exitStatus
    timedOut := measured.timedOut
    outputLimited := measured.outputLimited
    session := session
    eventsJson := events
    attestation := measured.attestation
    observedFindings := assessed.findings.filter fun finding => !isPolicy finding
    policyFindings := (assessed.findings.filter isPolicy).map (withEvidence violations)
    summary := sinks.summary
    assessment := assessed }

/-- The files of the session directory. -/
def sessionFiles (result : Result) : List (LexicalPath.Path × Text) :=
  [(LexicalPath.append result.session "events.json".toList, result.eventsJson),
    (LexicalPath.append result.session "attestation.txt".toList, result.attestation ++ ['\n']),
    (LexicalPath.append result.session "summary.json".toList, json result ++ ['\n'])]

/-- `analyze::run` with the session it has been given. -/
def runIn (session : LexicalPath.Path) (args : List Text) (options : Options) (env : Env) :
    Option Result :=
  if args = [] ∨ session = [] then some { session := session }
  else (measure args options env).map (conclude session)

/-! ## The command -/

/-- `std::from_chars` for an unsigned 64-bit number, over the whole text. -/
def fromChars (value : Text) : Option Nat :=
  if value ≠ [] ∧ value.all Char.isDigit then
    let number := value.foldl (fun n c => 10 * n + (c.toNat - '0'.toNat)) 0
    if number < 2 ^ 64 then some number else none
  else none

/-- An option that is followed by a value. -/
def setValue (options : Options) (option value : Text) : Option Options :=
  if option = "--format".toList then
    if value = "json".toList then some { options with format := .json }
    else if value = "terminal".toList then some { options with format := .terminal }
    else none
  else if option = "--timeout".toList then
    match fromChars value with
    | none => none
    | some number =>
      if number = 0 then none else some { options with timeout := toInt64 number }
  else if option = "--output-limit".toList then
    match fromChars value with
    | none => none
    | some number => if number = 0 then none else some { options with outputLimit := number }
  else if option = "--deny-path".toList then
    some { options with policy.deniedPaths := options.policy.deniedPaths ++ [value] }
  else if option = "--deny-endpoint".toList then
    some { options with policy.deniedEndpoints := options.policy.deniedEndpoints ++ [value] }
  else if option = "--deny-syscall".toList then
    some { options with policy.deniedSyscalls := options.policy.deniedSyscalls ++ [value] }
  else if option = "--max-processes".toList then
    match fromChars value with
    | none => none
    | some number => some { options with policy.maxProcesses := number }
  else none

/-- The loop over the options: what they set, and the target with its arguments. -/
def parse : Options → List Text → Option (Options × List Text)
  | _, [] => none
  | options, arg :: rest =>
    if "--".toList.isPrefixOf arg then
      if arg = "--sandbox".toList then parse { options with sandbox := true } rest
      else
        match rest with
        | [] => none
        | value :: rest =>
          match setValue options arg value with
          | none => none
          | some options => parse options rest
    else some (options, arg :: rest)

/-- How the program ends: by returning from `main`, or by an exception that nothing
catches. -/
inductive Exit where
  | code (value : Int)
  | terminated
  deriving DecidableEq, Repr

/-- The exit code of a result. -/
def exitCode (result : Result) : Int :=
  if Search.occurs "\"verdict\":\"allow\"".toList (json result) then 0 else 1

/-- What is left of an invocation: its end, the result behind it, the report on the
standard output, and what goes into the files of the session. -/
structure Outcome where
  exit : Exit
  result : Option Result := none
  report : Text := []
  files : List (LexicalPath.Path × Text) := []

/-- `main` once the options are read. -/
def invoke (options : Options) (args : List Text) (env : Env) : Option Outcome :=
  match env.sessionPath with
  | none => some { exit := .terminated }
  | some session =>
    (runIn session args options env).map fun result =>
      { exit := .code (exitCode result)
        result := some result
        report := if options.format = .json then json result ++ ['\n'] else print result
        files := if args = [] ∨ session = [] then [] else sessionFiles result }

/-- `main` for `execell analyze` with the arguments `argv`. -/
def main (argv : List Text) (env : Env) : Option Outcome :=
  match parse {} argv with
  | none => some { exit := .code 1 }
  | some (options, args) => invoke options args env

end ExeCell.Analyze
