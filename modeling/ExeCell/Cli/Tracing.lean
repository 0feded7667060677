import ExeCell.Analyze.Findings
import ExeCell.Cli.PackageOptions

/-!
# The commands under the tracer

`execell trace` and `execell inspect`. Both run their target under the tracer, the one with a
reporter alone and the other with the policy in front of it.

* `inspect_annotates` compares the two: what `inspect` reports is what `trace` reports, with a
  violation behind each event that the policy denies.
* `inspect_agrees` compares `inspect` with `analyze`, which reads the same options and judges
  the same events.
-/

namespace ExeCell.Cli

open CommandLine Report
open Policy (run_foldl exists_recorded run_annotated)

/-- `print_usage`. -/
def printUsage (executable : Text) : Text :=
  "ExeCell 0.2.0\nUsage:\n  ".toList ++ executable ++
    " run <program>   [arguments...]\n  ".toList ++ executable ++
    " trace <program> [arguments...]\n  ".toList ++ executable ++
    " trace --format json <program> [arguments...]\n  ".toList ++ executable ++
    " inspect <program> [arguments...]\n  ".toList ++ executable ++
    " inspect --deny-path PATH <program> [arguments...]\n  ".toList ++ executable ++
    " inspect --max-processes N <program> [arguments...]\n  ".toList ++ executable ++
    " analyze [--format terminal|json] [--sandbox] [--timeout S] [--output-limit BYTES] ".toList ++
    "[policy options] <program> [arguments...]\n  ".toList ++ executable ++
    " sandbox [--backend namespace|vm] [--network] [--trace-events] [--cpu N] ".toList ++
    "[--memory BYTES] <program> [arguments...]\n  ".toList ++ executable ++
    " package scan|build|compare|doctor|fetch|report|cleanup [options] [path]\n".toList ++
    "    options: --timeout 30s --workers N --rebuild N --database PATH --cgroup-root PATH ".toList ++
    "--network off|mirror --mirror URL --allow-host HOST --run-all --byte-diff\n".toList

/-- The exit code of a command, and what it writes on the standard output. -/
structure Ended where
  code : Int
  out : Text := []
  deriving DecidableEq, Repr

/-- What the system answers when a target is run under the tracer. -/
abbrev System := List Text → Trace.TraceEnv

/-! ## The command trace -/

def jsonReporter : Reporter JsonReporter where
  report := JsonReporter.report

def summaryReporter : Reporter Summary where
  report := Summary.report

def terminalReporter : Reporter Text where
  report := TerminalReporter.report

/-- The arguments ask for JSON, and there is a target behind that. -/
def AsksJson (args : List Text) : Prop :=
  3 ≤ args.length ∧ args.take 2 = ["--format".toList, "json".toList]

instance (args : List Text) : Decidable (AsksJson args) := inferInstanceAs (Decidable (_ ∧ _))

/-- `main` for `execell trace`. -/
def trace (args : List Text) (system : System) : Option Ended :=
  if AsksJson args then
    (Trace.run jsonReporter {} (system (args.drop 2))).map fun (code, json) =>
      { code := code, out := json.finish.output }
  else
    (Trace.run terminalReporter [] (system args)).map fun (code, written) =>
      { code := code, out := written }

/-! ## The command inspect -/

/-- What the options of `execell inspect` set. -/
structure InspectOptions where
  jsonFormat : Bool := false
  policyConfig : Policy.Config := {}
  deriving DecidableEq, Repr

def inspectNames : List Text :=
  ["--deny-path".toList, "--deny-endpoint".toList, "--deny-syscall".toList,
    "--max-processes".toList, "--format".toList]

def inspectSet (option value : Text) (options : InspectOptions) : Except Text InspectOptions :=
  if option = "--format".toList then
    if value ≠ "json".toList ∧ value ≠ "terminal".toList then
      .error ("execell: invalid format: ".toList ++ value ++ ['\n'])
    else .ok { options with jsonFormat := value = "json".toList }
  else if option = "--max-processes".toList then
    match Analyze.fromChars value with
    | none => .error "execell: invalid process limit\n".toList
    | some number => .ok { options with policyConfig.maxProcesses := number }
  else if option = "--deny-path".toList then
    .ok { options with
      policyConfig.deniedPaths := options.policyConfig.deniedPaths ++ [value] }
  else if option = "--deny-endpoint".toList then
    .ok { options with
      policyConfig.deniedEndpoints := options.policyConfig.deniedEndpoints ++ [value] }
  else
    .ok { options with
      policyConfig.deniedSyscalls := options.policyConfig.deniedSyscalls ++ [value] }

/-- The first argument that is none of the five options is the target. -/
def inspectGrammar : Grammar Text InspectOptions Text where
  isOption arg := inspectNames.contains arg
  flag _ := none
  missing _ := "execell: missing path for --deny-path\n".toList
  set := inspectSet

def parseInspect (args : List Text) : Except Text (InspectOptions × List Text) :=
  inspectGrammar.read {} args

/-- `main` for `execell inspect` with the target. -/
def inspectTarget (options : InspectOptions) (env : Trace.TraceEnv) : Option Ended :=
  if options.jsonFormat then
    (Trace.run (Policy.reporter jsonReporter)
      { engine := { config := options.policyConfig }, downstream := {} } env).map
        fun (code, policy) => { code := code, out := policy.downstream.finish.output }
  else
    (Trace.run (Policy.reporter summaryReporter)
      { engine := { config := options.policyConfig }, downstream := {} } env).map
        fun (code, policy) => { code := code, out := policy.downstream.print }

/-- `main` for `execell inspect`: the message when the options are not accepted, after which
the exit code is one. -/
def inspect (executable : Text) (args : List Text) (system : System) :
    Except Text (Option Ended) :=
  match parseInspect args with
  | .error message => .error message
  | .ok (_, []) => .ok (some { code := 1, out := printUsage executable })
  | .ok (options, program :: rest) => .ok (inspectTarget options (system (program :: rest)))

theorem inspect_of_parse {executable : Text} {args target : List Text} {options : InspectOptions}
    {system : System} (hparse : parseInspect args = .ok (options, target)) (htarget : target ≠ []) :
    inspect executable args system = .ok (inspectTarget options (system target)) := by
  rw [inspect, hparse]
  cases target with
  | nil => exact absurd rfl htarget
  | cons program rest => rfl

/-! ## What the reporters have written -/

section Views

variable {env : Trace.TraceEnv} {code : Int} {events : List Event} {config : Policy.Config}

theorem open_foldl (events : List Event) :
    (events.foldl JsonReporter.report {}).Open events := by
  induction events using List.reverseRecOn with
  | nil => exact ⟨rfl, rfl, rfl⟩
  | append_singleton events event ih =>
    rw [List.foldl_append]
    exact JsonReporter.open_report ih event

theorem output_foldl (events : List Event) :
    (events.foldl JsonReporter.report {}).finish.output = JsonReporter.frame events ++ [']'] := by
  obtain ⟨hfinished, _, houtput⟩ := open_foldl events
  rw [JsonReporter.finish_output hfinished, houtput]

/-- A violation makes the array longer. -/
theorem frame_length {output : List Event} {violations : List Policy.Violation}
    (h : Policy.Annotates config events output violations) :
    (JsonReporter.frame events).length + violations.length ≤ (JsonReporter.frame output).length := by
  have hgrows : ∀ (events : List Event) (event : Event),
      (JsonReporter.frame (events ++ [event])).length =
        (JsonReporter.frame events).length + 1 + (eventJson event).length := by
    intro events event
    rw [JsonReporter.frame_append, List.length_append, List.length_append]
    split <;> rfl
  induction h with
  | start => exact le_refl _
  | allowed _ _ ih =>
    rw [hgrows, hgrows]
    omega
  | @denied input output violations event violation _ _ _ ih =>
    have hboth : output ++ [event, violation.event] = output ++ [event] ++ [violation.event] := by
      rw [List.append_assoc]
      rfl
    rw [hboth, hgrows, hgrows, hgrows, List.length_append, List.length_singleton]
    omega

theorem output_eq_of_annotates {output : List Event}
    (h : Policy.Annotates config events output []) : output = events := by
  generalize hnone : ([] : List Policy.Violation) = violations at h
  induction h with
  | start => rfl
  | allowed _ _ ih => rw [ih hnone]
  | denied _ _ _ _ => exact absurd hnone.symm (List.append_ne_nil_of_right_ne_nil _ (by simp))

end Views

/-! ## Trace and inspect -/

section Commands

variable {executable : Text} {args target : List Text} {options : InspectOptions}
  {system : System} {ended : Ended}

theorem asksJson_cons (htarget : target ≠ []) :
    AsksJson ("--format".toList :: "json".toList :: target) := by
  obtain ⟨program, rest, rfl⟩ := List.exists_cons_of_ne_nil htarget
  exact ⟨by simp, rfl⟩

/-- `trace` in its two formats and `inspect` in its own end with one code and show the same
events, those of `inspect` with a violation behind each one that the policy denies. With
JSON the texts are the same exactly when nothing is denied. -/
theorem inspect_annotates (hparse : parseInspect args = .ok (options, target))
    (htarget : target ≠ [])
    (htrace : trace ("--format".toList :: "json".toList :: target) system = some ended) :
    ∃ events output violations inspected,
      Policy.Annotates options.policyConfig events output violations ∧
      ended.out = JsonReporter.frame events ++ [']'] ∧
      (¬ AsksJson target → trace target system = some
        { code := ended.code
          out := events.flatMap fun event => TerminalReporter.line event.payload }) ∧
      inspect executable args system = .ok (some inspected) ∧
      inspected.code = ended.code ∧
      (options.jsonFormat = false → inspected.out = (output.foldl Summary.report {}).print) ∧
      (options.jsonFormat = true → inspected.out = JsonReporter.frame output ++ [']'] ∧
        (inspected.out = ended.out ↔ violations = [])) := by
  have hbehind : ("--format".toList :: "json".toList :: target).drop 2 = target := rfl
  rw [trace, if_pos (asksJson_cons htarget), hbehind] at htrace
  obtain ⟨⟨code, json⟩, hrun, rfl⟩ := Option.map_eq_some_iff.mp htrace
  obtain ⟨events, hrecorded, rfl⟩ := exists_recorded hrun
  obtain ⟨output, hannotates, hpolicy⟩ := run_annotated options.policyConfig hrecorded
  have hout : (events.foldl jsonReporter.report {}).finish.output =
      JsonReporter.frame events ++ [']'] := output_foldl events
  rw [inspect_of_parse hparse htarget, inspectTarget]
  refine ⟨events, output, _, ?inspected, hannotates, hout, ?terminal, ?inspect, ?code, ?summary,
    ?json⟩
  case inspected =>
    exact { code := code
            out := if options.jsonFormat then JsonReporter.frame output ++ [']']
                   else (output.foldl Summary.report {}).print }
  case terminal =>
    intro hterminal
    have hwritten : events.foldl terminalReporter.report [] =
        events.flatMap fun event => TerminalReporter.line event.payload := by
      rw [← List.nil_append (events.flatMap _)]
      exact TerminalReporter.foldl_report [] events
    rw [trace, if_neg hterminal, run_foldl terminalReporter [] hrecorded, hwritten]
    rfl
  case inspect =>
    split
    · obtain ⟨policy, hrun, hreceived⟩ := hpolicy _ jsonReporter {}
      have hfinished : policy.downstream.finish.output = JsonReporter.frame output ++ [']'] := by
        rw [hreceived]
        exact output_foldl output
      rw [hrun, Option.map_some, ← hfinished]
    · obtain ⟨policy, hrun, hreceived⟩ := hpolicy _ summaryReporter {}
      have hsummary : policy.downstream = output.foldl Summary.report {} := hreceived
      rw [hrun, Option.map_some, ← hsummary]
  case code => rfl
  case summary =>
    intro hformat
    rw [hformat]
    rfl
  case json =>
    intro hformat
    rw [hformat]
    refine ⟨rfl, ?_⟩
    dsimp only
    rw [if_pos rfl, hout, List.append_left_inj]
    constructor
    · intro hsame
      have hlength := frame_length hannotates
      rw [hsame] at hlength
      exact List.eq_nil_of_length_eq_zero (by omega)
    · intro hnone
      rw [hnone] at hannotates
      rw [output_eq_of_annotates hannotates]

/-- A call is denied that the target makes, and both commands end with its status. -/
theorem inspect_annotates_denied :
    let args := ["--format".toList, "json".toList, "--deny-syscall".toList, "openat".toList,
      "/bin/true".toList]
    let system : System := fun _ => Analyze.failingTrace
    ∃ ended inspected,
      trace ["--format".toList, "json".toList, "/bin/true".toList] system = some ended ∧
        inspect "execell".toList args system = .ok (some inspected) ∧
        inspected.code = ended.code := by
  intro args system
  obtain ⟨ended, hended⟩ : ∃ ended,
      trace ["--format".toList, "json".toList, "/bin/true".toList] system = some ended := ⟨_, rfl⟩
  have hparse : parseInspect args =
      .ok (⟨true, { deniedSyscalls := ["openat".toList] }⟩, ["/bin/true".toList]) := rfl
  obtain ⟨_, _, _, inspected, _, _, _, hinspect, hcode, _⟩ :=
    @inspect_annotates "execell".toList _ _ _ _ _ hparse (List.cons_ne_nil _ _) hended
  exact ⟨ended, inspected, hended, hinspect, hcode⟩

end Commands

/-! ## Inspect and analyze -/

/-- The options of `execell analyze` that say the same. -/
def InspectOptions.toAnalyze (options : InspectOptions) : Analyze.Options :=
  { format := if options.jsonFormat then .json else .terminal
    policy := options.policyConfig }

section Agree

variable {executable : Text} {args target : List Text} {options options' : InspectOptions}

theorem setValue_of_inspectSet {option value : Text} (hname : option ∈ inspectNames)
    (h : inspectSet option value options = .ok options') :
    Analyze.setValue options.toAnalyze option value = some options'.toAnalyze := by
  simp only [inspectNames, List.mem_cons, List.not_mem_nil, or_false] at hname
  rcases hname with rfl | rfl | rfl | rfl | rfl
  · cases h
    rfl
  · cases h
    rfl
  · cases h
    rfl
  · change (match Analyze.fromChars value with | none => _ | some number => _) = _ at h
    change (match Analyze.fromChars value with | none => _ | some number => _) = _
    cases hnumber : Analyze.fromChars value with
    | none =>
      rw [hnumber] at h
      cases h
    | some number =>
      rw [hnumber] at h
      cases h
      rfl
  · rw [inspectSet, if_pos rfl] at h
    rw [Analyze.setValue, if_pos rfl]
    by_cases hjson : value = "json".toList
    · subst hjson
      cases h
      rfl
    by_cases hterminal : value = "terminal".toList
    · subst hterminal
      cases h
      rfl
    · rw [if_pos ⟨hjson, hterminal⟩] at h
      cases h

/-- `analyze` reads the options of `inspect` as `inspect` does. -/
theorem parse_items {items : List (Item Text)} {program : Text} {rest : List Text}
    (hfits : ∀ item ∈ items, inspectGrammar.Fits item)
    (hacts : inspectGrammar.acts options items = .ok options')
    (hprogram : isOption program = false) :
    Analyze.parse options.toAnalyze (items.flatMap Item.args ++ program :: rest) =
      some (options'.toAnalyze, program :: rest) := by
  induction items generalizing options with
  | nil =>
    cases hacts
    rw [List.flatMap_nil, List.nil_append, Analyze.parse.eq_def]
    dsimp only
    rw [if_neg]
    rw [← isOption, hprogram]
    decide
  | cons item items ih =>
    rw [List.forall_mem_cons] at hfits
    obtain ⟨later, hact, hlater⟩ := Grammar.acts_cons_eq_ok.mp hacts
    obtain ⟨⟨hoption, hkind⟩, hfits⟩ := hfits
    cases item with
    | flag option => cases hkind
    | pair option value =>
      have hname : option ∈ inspectNames := List.contains_iff_mem.mp hoption
      have hset := setValue_of_inspectSet hname hact
      have hdashes : "--".toList.isPrefixOf option = true ∧ option ≠ "--sandbox".toList := by
        simp only [inspectNames, List.mem_cons, List.not_mem_nil, or_false] at hname
        rcases hname with rfl | rfl | rfl | rfl | rfl
        all_goals decide
      rw [List.flatMap_cons, Item.args, List.append_assoc, List.cons_append, List.cons_append,
        List.nil_append, Analyze.parse, if_pos hdashes.1, if_neg hdashes.2, hset]
      exact ih hfits hlater

/-- A reporter of `inspect` is a part of the one that `analyze` has behind its policy. -/
theorem run_behind {ρ : Type} {R : Reporter ρ} {f : Analyze.Sinks → ρ}
    (hf : ∀ s event, f (Analyze.sinks.report s event) = R.report (f s) event)
    (config : Policy.Config) (env : Trace.TraceEnv) :
    Trace.run (Policy.reporter R) { engine := { config := config }, downstream := f {} } env =
      (Trace.run (Policy.reporter Analyze.sinks)
        { engine := { config := config }, downstream := {} } env).map
          fun result => (result.1, Analyze.behind f result.2) :=
  Trace.run_relay (Analyze.behind_report hf)
    { engine := { config := config }, downstream := {} } env

/-- `analyze` reads the same options, reports the same events and sees the same status: with
JSON the events that `inspect` writes are those in the report of `analyze`, on the terminal
the summary is the same. -/
theorem inspect_agrees {program : Text} {session : LexicalPath.Path} {env : Analyze.Env}
    (hparse : parseInspect args = .ok (options, program :: target))
    (hprogram : isOption program = false) (hsession : session ≠ [])
    (hredirected : env.redirected options.toAnalyze.format = true) :
    Analyze.parse {} args = some (options.toAnalyze, program :: target) ∧
      inspect executable args (fun _ => env.trace) =
        .ok ((Analyze.runIn session (program :: target) options.toAnalyze env).map fun result =>
          { code := result.exitStatus
            out := if options.jsonFormat then result.eventsJson else result.summary.print }) := by
  constructor
  · obtain ⟨items, hfits, rfl, hacts, _⟩ := Grammar.read_eq_ok_iff.mp hparse
    exact parse_items hfits hacts hprogram
  · have hargs : ¬ (program :: target = [] ∨ session = []) := by simp [hsession]
    have hmeasure : Analyze.measure (program :: target) options.toAnalyze env =
        (Trace.run (Policy.reporter Analyze.sinks)
          { engine := { config := options.policyConfig }, downstream := {} } env.trace).map
            fun ended =>
              { exitStatus := ended.1
                attestation := "backend=ptrace; sandbox=false; policy=observer".toList
                policy := ended.2 } := by
      rw [Analyze.measure, if_neg (by exact Bool.false_ne_true), if_pos hredirected]
      rfl
    rw [inspect_of_parse hparse (List.cons_ne_nil _ _), inspectTarget, Analyze.runIn, if_neg hargs,
      hmeasure, Option.map_map, Option.map_map]
    split
    · have hrun := run_behind (R := jsonReporter) (f := Analyze.Sinks.json) (fun _ _ => rfl)
        options.policyConfig env.trace
      rw [hrun, Option.map_map]
      rfl
    · have hrun := run_behind (R := summaryReporter) (f := Analyze.Sinks.summary) (fun _ _ => rfl)
        options.policyConfig env.trace
      rw [hrun, Option.map_map]
      rfl

theorem inspect_agrees_failing :
    let args := ["--deny-syscall".toList, "openat".toList, "/bin/true".toList]
    Analyze.parse {} args =
        some (InspectOptions.toAnalyze ⟨false, { deniedSyscalls := ["openat".toList] }⟩,
          ["/bin/true".toList]) ∧
      (inspect "execell".toList args fun _ => Analyze.failingTrace).toBool := by
  intro args
  have hparse : parseInspect args =
      .ok (⟨false, { deniedSyscalls := ["openat".toList] }⟩, ["/bin/true".toList]) := rfl
  obtain ⟨hanalyze, hinspect⟩ :=
    @inspect_agrees "execell".toList _ _ _ _ "/tmp/s".toList Analyze.failingEnv hparse
      (by decide) (by decide) (by decide)
  exact ⟨hanalyze, congrArg Except.toBool hinspect⟩

end Agree

end ExeCell.Cli
