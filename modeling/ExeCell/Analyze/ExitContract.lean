import ExeCell.Analyze.Run

/-!
# The exit contract of analyze

An invocation should end with the verdict `allow` and exit code zero only when the target
was run and ended well. The risk engine keeps its part: an assessment that allows has seen
no violation, no timeout, no cut output and the status zero. What is left is whether the
status was measured at all. It was not when there is no session directory, where the
default assessment is returned, nor when `run_captured` cannot wait for its child, where
the status is the initial zero.
-/

namespace ExeCell.Analyze

open WaitStatus

/-! ## What an assessment that allows has seen -/

section Reject

variable (engine : Risk.Engine) (c : Prop) [Decidable c] (name : Text) (weight : Int)
  (explanation : Text)

theorem directReject_add_if :
    (if c then engine.add name weight explanation else engine).directReject =
      engine.directReject := by
  split <;> rfl

theorem directReject_reject_if :
    (if c then engine.reject name explanation else engine).directReject =
      (engine.directReject || decide c) := by
  split
  · rename_i hc
    simp [Risk.Engine.reject, hc]
  · rename_i hc
    simp [hc]

end Reject

theorem directReject_violations (violations : List Policy.Violation) (engine : Risk.Engine) :
    (violations.foldl (fun engine violation =>
      Risk.Engine.reject engine "policy_violation".toList
        (violation.rule ++ ": ".toList ++ violation.resource)) engine).directReject =
      (engine.directReject || !violations.isEmpty) := by
  induction violations generalizing engine with
  | nil => simp
  | cons violation violations ih =>
    rw [List.foldl_cons, ih]
    simp [Risk.Engine.reject]

theorem assess_of_directReject {engine : Risk.Engine} (h : engine.directReject = true) :
    engine.assess.action = .reject := by
  simp [Risk.Engine.assess, h]

/-- The assessment rejects whenever something went wrong. -/
theorem of_assessment_allow {summary : Report.Summary} {violations : List Policy.Violation}
    {status : Int} {timedOut outputLimited : Bool}
    (h : (assessment summary violations status timedOut outputLimited).action = .allow) :
    violations = [] ∧ timedOut = false ∧ outputLimited = false ∧ status = 0 := by
  by_contra hwrong
  apply absurd h
  unfold assessment
  dsimp only
  rw [assess_of_directReject]
  · decide
  · simp only [directReject_reject_if, directReject_add_if, directReject_violations]
    by_contra hreject
    apply hwrong
    simpa [and_assoc] using hreject

theorem verdict_eq_allow {assessment : Risk.Assessment} :
    verdict assessment = "allow".toList ↔ assessment.action = .allow := by
  unfold verdict
  cases assessment.action <;> decide

theorem json_eq (result : Result) :
    json result = "\x7b\"schema_version\":2,\"verdict\":".toList ++
      stringJson (verdict result.assessment) ++ jsonBody result := by
  delta json
  rfl

/-- A result with this verdict has exit code zero. -/
theorem exitCode_of_allow {result : Result}
    (h : verdict result.assessment = "allow".toList) : exitCode result = 0 := by
  have hhead : "\x7b\"schema_version\":2,\"verdict\":".toList ++ stringJson "allow".toList =
      "\x7b\"schema_version\":2,".toList ++ "\"verdict\":\"allow\"".toList := by decide
  have hjson := json_eq result
  rw [h] at hjson
  exact if_pos (decide_eq_true
    ⟨_, _, (hjson.trans (congrArg (· ++ jsonBody result) hhead)).symm⟩)

/-! ## The contract -/

/-- How the target ended, `none` when the invocation has not started it. -/
def Env.targetEnding (env : Env) (options : Options) (args : List Text) : Option Ending :=
  if args = [] ∨ env.sessionPath = some [] then none
  else if options.sandbox then env.capture.targetEnding options.sandboxConfig
  else if env.redirected options.format then env.trace.targetEnding
  else none

/-- The target was run and exited with status zero. -/
def Succeeded (options : Options) (args : List Text) (env : Env) : Prop :=
  ∃ ending, env.targetEnding options args = some ending ∧ ending.status = 0

/-- What stands behind the verdict: the target was run and ended with status zero, it was
neither timed out nor cut off, and no violation was recorded. -/
def Earned (options : Options) (args : List Text) (env : Env) : Prop :=
  Succeeded options args env ∧
    ∃ measured, measure args options env = some measured ∧ measured.timedOut = false ∧
      measured.outputLimited = false ∧ measured.policy.engine.violations = []

/-- The invocation ends with the verdict `allow` and exit code zero. -/
def Outcome.Allows (outcome : Outcome) : Prop :=
  outcome.exit = .code 0 ∧
    ∃ result, outcome.result = some result ∧ verdict result.assessment = "allow".toList

/-- The status is measured: there is a target and a session directory, and the sandbox
waits for its child, unless the capture is cut short anyway or the target did succeed. -/
def Grounded (options : Options) (args : List Text) (env : Env) : Prop :=
  env.tempDirectory = none ∨
    args ≠ [] ∧ env.sessionCreated = true ∧
      (options.sandbox = true → env.capture.forked = true → env.capture.waited = false →
        Sandbox.cutShort options.outputLimit env.capture.passes = true ∨
          Succeeded options args env)

theorem append_ne_nil (base : LexicalPath.Path) {path : LexicalPath.Path} (h : path ≠ []) :
    LexicalPath.append base path ≠ [] := by
  unfold LexicalPath.append
  split_ifs <;> simp [h]

theorem sessionPath_eq_nil {env : Env} :
    env.sessionPath = some [] ↔ env.tempDirectory ≠ none ∧ env.sessionCreated = false := by
  have hname : "execell-session-".toList ++ Text.ofNat env.pid ≠ [] :=
    List.append_ne_nil_of_left_ne_nil (by decide) _
  rw [Env.sessionPath]
  cases env.tempDirectory with
  | none => exact iff_of_false (fun h => nomatch h) fun h => h.1 rfl
  | some directory =>
    cases env.sessionCreated with
    | false => exact iff_of_true rfl ⟨Option.some_ne_none _, rfl⟩
    | true =>
      refine iff_of_false ?_ fun h => nomatch h.2
      exact fun h => append_ne_nil directory hname (Option.some.inj h)

section Measured

variable {options : Options} {args : List Text} {env : Env} {measured : Measured}

theorem succeeded_of_sandbox (hargs : args ≠ []) (hsession : env.sessionPath ≠ some [])
    (hsandbox : options.sandbox = true)
    (hwaits : env.capture.forked = true → env.capture.waited = false →
      Sandbox.cutShort options.outputLimit env.capture.passes = true ∨ Succeeded options args env)
    {captured : Sandbox.Captured}
    (h : env.capture.captured options.sandboxConfig args options.outputLimit = some captured)
    (htime : captured.timedOut = false) (hlimit : captured.outputLimited = false)
    (hstatus : captured.status = 0) : Succeeded options args env := by
  rcases Sandbox.CaptureRun.captured_cases hargs h with
    ⟨-, rfl⟩ | ⟨hforked, hcut, ⟨-, ending, hending, hcode⟩ | ⟨hwaited, -⟩⟩
  · exact absurd hstatus (by decide)
  · have hzero : shellStatus ending.status (-1) = 0 := by
      rw [htime] at hcode
      exact hcode.symm.trans hstatus
    obtain ⟨target, htarget, hended⟩ := Sandbox.CaptureRun.childEnding_zero hforked hending
      ((Ending.shellStatus_eq_zero_iff _ _).mp hzero)
    refine ⟨target, ?_, hended⟩
    rw [Env.targetEnding, if_neg (by simp [hargs, hsession]), if_pos hsandbox, htarget]
  · rw [htime, hlimit, Bool.false_or] at hcut
    rcases hwaits hforked hwaited with hshort | hsucceeded
    · rw [hshort] at hcut
      cases hcut
    · exact hsucceeded

theorem succeeded_of_measured (hargs : args ≠ []) (hsession : env.sessionPath ≠ some [])
    (hwaits : options.sandbox = true → env.capture.forked = true → env.capture.waited = false →
      Sandbox.cutShort options.outputLimit env.capture.passes = true ∨ Succeeded options args env)
    (h : measure args options env = some measured)
    (htime : measured.timedOut = false) (hlimit : measured.outputLimited = false)
    (hstatus : measured.exitStatus = 0) : Succeeded options args env := by
  rw [measure] at h
  dsimp only at h
  split at h
  · rename_i hsandbox
    rw [Option.map_eq_some_iff] at h
    obtain ⟨captured, hcaptured, rfl⟩ := h
    exact succeeded_of_sandbox hargs hsession hsandbox (hwaits hsandbox) hcaptured htime hlimit
      hstatus
  · rename_i hsandbox
    split at h
    · rename_i hredirected
      rw [Option.map_eq_some_iff] at h
      obtain ⟨⟨status, policy⟩, hrun, rfl⟩ := h
      have hzero : status = 0 := hstatus
      subst hzero
      obtain ⟨target, htarget, hended⟩ := Trace.run_zero _ hrun
      refine ⟨target, ?_, hended⟩
      rw [Env.targetEnding, if_neg (by simp [hargs, hsession]), if_neg hsandbox,
        if_pos hredirected, htarget]
    · cases h
      have hfailed : (125 : Int) = 0 := hstatus
      omega

/-- A sandboxed run that cannot wait for its child is allowed. -/
theorem allow_of_not_waited (hargs : args ≠ []) (hsandbox : options.sandbox = true)
    (hforked : env.capture.forked = true) (hwaited : env.capture.waited = false)
    (hcut : Sandbox.cutShort options.outputLimit env.capture.passes = false)
    (h : measure args options env = some measured) (session : LexicalPath.Path) :
    (conclude session measured).assessment.action = .allow := by
  rw [measure] at h
  dsimp only at h
  rw [if_pos hsandbox, Option.map_eq_some_iff] at h
  obtain ⟨captured, hcaptured, rfl⟩ := h
  rcases Sandbox.CaptureRun.captured_cases hargs hcaptured with
    ⟨hnone, -⟩ | ⟨-, hflags, ⟨hwaits, -⟩ | ⟨-, hstatus⟩⟩
  · rw [hforked] at hnone
    cases hnone
  · rw [hwaited] at hwaits
    cases hwaits
  · rw [hcut, Bool.or_eq_false_iff] at hflags
    rw [hflags.1] at hstatus
    have hzero : captured.status = 0 := hstatus
    simp only [conclude, hzero, hflags.1, hflags.2]
    decide

/-- With a target and a session directory something is measured. -/
theorem exists_measured {session : LexicalPath.Path} {result : Result} (hargs : args ≠ [])
    (hsession : session ≠ []) (h : runIn session args options env = some result) :
    ∃ measured, measure args options env = some measured ∧ result = conclude session measured := by
  rw [runIn, if_neg (by simp [hargs, hsession])] at h
  obtain ⟨measured, hmeasured, heq⟩ := Option.map_eq_some_iff.mp h
  exact ⟨measured, hmeasured, heq.symm⟩

/-! ### When the contract is kept -/

theorem sessionPath_ne_nil {session : LexicalPath.Path} (hpath : env.sessionPath = some session)
    (hsession : session ≠ []) : env.sessionPath ≠ some [] := by
  rw [hpath]
  exact fun heq => hsession (Option.some.inj heq)

theorem tempDirectory_ne_none {session : LexicalPath.Path}
    (hpath : env.sessionPath = some session) : env.tempDirectory ≠ none := by
  intro hnone
  rw [Env.sessionPath, hnone] at hpath
  cases hpath

/-- Where nothing is run, the default assessment allows, and nothing has earned it. -/
theorem early_earned_iff {session : LexicalPath.Path} (hpath : env.sessionPath = some session)
    (hearly : args = [] ∨ session = []) :
    Earned options args env ↔ Grounded options args env := by
  have hending : env.targetEnding options args = none :=
    if_pos (hearly.imp id fun hnil => hnil ▸ hpath)
  refine iff_of_false ?_ ?_
  · rintro ⟨⟨ending, hsome, -⟩, -⟩
    rw [hending] at hsome
    cases hsome
  · rintro (hnone | ⟨hargs, hcreated, -⟩)
    · exact tempDirectory_ne_none hpath hnone
    · rcases hearly with hnil | hnil
      · exact hargs hnil
      · rw [hnil, sessionPath_eq_nil, hcreated] at hpath
        cases hpath.2

/-- What was measured has earned the verdict `allow` exactly when the status is measured. -/
theorem measured_earned_iff {session : LexicalPath.Path} (hargs : args ≠ [])
    (hsession : session ≠ []) (hpath : env.sessionPath = some session)
    (h : measure args options env = some measured) :
    (verdict (conclude session measured).assessment = "allow".toList → Earned options args env) ↔
      Grounded options args env := by
  have hnonempty := sessionPath_ne_nil hpath hsession
  have htemp := tempDirectory_ne_none hpath
  have hcreated : env.sessionCreated = true := by
    by_contra hnot
    exact hnonempty (sessionPath_eq_nil.mpr ⟨htemp, Bool.eq_false_iff.mpr hnot⟩)
  constructor
  · intro hearned
    refine Or.inr ⟨hargs, hcreated, ?_⟩
    intro hsandbox hforked hwaited
    by_contra hnot
    rw [not_or, Bool.not_eq_true] at hnot
    have hallow := verdict_eq_allow.mpr
      (allow_of_not_waited hargs hsandbox hforked hwaited hnot.1 h session)
    exact hnot.2 (hearned hallow).1
  · rintro (hnone | ⟨-, -, hwaits⟩) hverdict
    · exact absurd hnone htemp
    · obtain ⟨hviolations, htime, hlimit, hstatus⟩ :=
        of_assessment_allow (verdict_eq_allow.mp hverdict)
      exact ⟨succeeded_of_measured hargs hnonempty hwaits h htime hlimit hstatus, measured, h, htime,
        hlimit, hviolations⟩

end Measured

/-- An outcome with a result allows when the verdict does. -/
theorem Outcome.allows_iff {outcome : Outcome} {result : Result}
    (hexit : outcome.exit = .code (exitCode result)) (hresult : outcome.result = some result) :
    outcome.Allows ↔ verdict result.assessment = "allow".toList := by
  constructor
  · rintro ⟨-, result', hsome, hverdict⟩
    obtain rfl := Option.some.inj (hresult.symm.trans hsome)
    exact hverdict
  · intro hverdict
    exact ⟨hexit.trans (congrArg Exit.code (exitCode_of_allow hverdict)), result, hresult, hverdict⟩

/-- An invocation of `analyze::run` and `main` behind it keeps the contract exactly when
the status is measured. -/
theorem invoke_earned_iff {options : Options} {args : List Text} {env : Env} {outcome : Outcome}
    (h : invoke options args env = some outcome) :
    (outcome.Allows → Earned options args env) ↔ Grounded options args env := by
  rw [invoke] at h
  split at h
  · rename_i hthrown
    cases h
    have htemp : env.tempDirectory = none := by
      rw [Env.sessionPath, Option.map_eq_none_iff] at hthrown
      exact hthrown
    refine iff_of_true ?_ (Or.inl htemp)
    rintro ⟨hexit, -⟩
    cases hexit
  · rename_i session hpath
    obtain ⟨result, hresult, rfl⟩ := Option.map_eq_some_iff.mp h
    rw [Outcome.allows_iff rfl rfl]
    by_cases hearly : args = [] ∨ session = []
    · rw [runIn, if_pos hearly] at hresult
      cases hresult
      rw [← early_earned_iff hpath hearly]
      exact ⟨fun hearned => hearned rfl, fun hearned _ => hearned⟩
    · obtain ⟨hargs, hsession⟩ := not_or.mp hearly
      obtain ⟨measured, hmeasured, rfl⟩ := exists_measured hargs hsession hresult
      exact measured_earned_iff hargs hsession hpath hmeasured

/-- Every invocation, from any options or from any command line, ends with the verdict
`allow` and exit code zero only for a target that has earned it, exactly when the status
is measured. -/
theorem analyze_earned_iff (options : Options) (args argv : List Text) (env : Env)
    (outcome : Outcome) :
    (invoke options args env = some outcome →
      ((outcome.Allows → Earned options args env) ↔ Grounded options args env)) ∧
    (main argv env = some outcome →
      ((outcome.Allows → ∃ options args, parse {} argv = some (options, args) ∧
          Earned options args env) ↔
        ∀ options args, parse {} argv = some (options, args) → Grounded options args env)) := by
  refine ⟨invoke_earned_iff, ?_⟩
  intro h
  rw [main] at h
  cases hparse : parse {} argv with
  | none =>
    rw [hparse] at h
    obtain rfl := Option.some.inj h
    refine iff_of_true ?_ (fun _ _ hsome => nomatch hsome)
    rintro ⟨hexit, -⟩
    cases hexit
  | some parsed =>
    obtain ⟨options, args⟩ := parsed
    rw [hparse] at h
    have hinvoke := invoke_earned_iff h
    constructor
    · intro hearned options' args' heq
      cases heq
      refine hinvoke.mp fun hallows => ?_
      obtain ⟨options', args', heq, hdone⟩ := hearned hallows
      cases heq
      exact hdone
    · intro hground hallows
      exact ⟨options, args, rfl, hinvoke.mpr (hground options args rfl) hallows⟩

/-- A result that allows makes an outcome that allows. -/
theorem main_allows {argv args : List Text} {options : Options} {env : Env}
    {session : LexicalPath.Path} {result : Result}
    (hparse : parse {} argv = some (options, args)) (hsession : env.sessionPath = some session)
    (hresult : runIn session args options env = some result)
    (hallow : verdict result.assessment = "allow".toList) :
    ∃ outcome, main argv env = some outcome ∧ outcome.Allows := by
  rw [main, hparse]
  dsimp only
  rw [invoke, hsession]
  dsimp only
  rw [hresult]
  exact ⟨_, rfl, (Outcome.allows_iff rfl rfl).mpr hallow⟩

/-- A tracer whose child enters `exit_group` and exits with status zero. -/
def quietTrace : Trace.TraceEnv where
  answers := [.call 100 231 0, .exited 100 0]
  honest := Trace.honest_of_tells rfl

/-- An environment in which everything works and the target does nothing. -/
def quietEnv : Env where
  trace := quietTrace
  capture :=
    { run := { host := {}, ids := { pid := 101, uid := 1000, gid := 1000 }, trace := quietTrace }
      passes := [{ out := { last := .eof }, err := { last := .eof } }] }

/-- A target that does nothing and exits with status zero is allowed, and has earned it. -/
theorem analyze_earned_quiet :
    ∃ outcome, main ["/bin/true".toList] quietEnv = some outcome ∧ outcome.Allows ∧
      ∃ options args, parse {} ["/bin/true".toList] = some (options, args) ∧
        Earned options args quietEnv := by
  obtain ⟨result, hresult⟩ : ∃ result,
      runIn "/tmp/execell-session-4000".toList ["/bin/true".toList] {} quietEnv = some result :=
    ⟨_, rfl⟩
  have hallow : verdict result.assessment = "allow".toList := by
    obtain rfl := Option.some.inj hresult
    decide
  have hsession : quietEnv.sessionPath = some "/tmp/execell-session-4000".toList := by decide
  obtain ⟨outcome, hmain, hallows⟩ := main_allows
    (show parse {} ["/bin/true".toList] = some ({}, ["/bin/true".toList]) from rfl) hsession
    hresult hallow
  refine ⟨outcome, hmain, hallows, ((analyze_earned_iff {} [] _ _ _).2 hmain).mpr ?_ hallows⟩
  rintro options args hparse
  cases hparse
  exact Or.inr ⟨List.cons_ne_nil _ _, rfl, fun hsandbox => nomatch hsandbox⟩

/-- The session directory cannot be created. -/
def noSession : Env := { quietEnv with sessionCreated := false }

/-- The sandbox cannot fork, and the process that runs it cannot be waited for. -/
def notWaited : Env :=
  { quietEnv with
    capture := { quietEnv.capture with
      run := { quietEnv.capture.run with fork := false }
      waited := false } }

/-- Without a session directory, and in a sandbox whose process is not waited for, a target
that was never started is allowed with exit code zero. -/
theorem analyze_not_earned :
    (∃ outcome, main ["/bin/true".toList] noSession = some outcome ∧ outcome.Allows ∧
      ¬ ∃ options args, parse {} ["/bin/true".toList] = some (options, args) ∧
        Earned options args noSession) ∧
    ∃ outcome, main ["--sandbox".toList, "/bin/true".toList] notWaited = some outcome ∧
      outcome.Allows ∧
      ¬ ∃ options args, parse {} ["--sandbox".toList, "/bin/true".toList] = some (options, args) ∧
        Earned options args notWaited := by
  constructor
  · have hsession : noSession.sessionPath = some [] := rfl
    obtain ⟨outcome, hmain, hallows⟩ := main_allows
      (show parse {} ["/bin/true".toList] = some ({}, ["/bin/true".toList]) from rfl)
      hsession rfl rfl
    refine ⟨outcome, hmain, hallows, ?_⟩
    rintro ⟨options, args, -, ⟨ending, hending, -⟩, -⟩
    rw [Env.targetEnding, if_pos (Or.inr hsession)] at hending
    cases hending
  · obtain ⟨result, hresult⟩ : ∃ result, runIn "/tmp/execell-session-4000".toList
        ["/bin/true".toList] { sandbox := true } notWaited = some result := ⟨_, rfl⟩
    have hallow : verdict result.assessment = "allow".toList := by
      obtain rfl := Option.some.inj hresult
      decide
    have hsession : notWaited.sessionPath = some "/tmp/execell-session-4000".toList := by decide
    obtain ⟨outcome, hmain, hallows⟩ := main_allows
      (show parse {} ["--sandbox".toList, "/bin/true".toList] =
        some ({ sandbox := true }, ["/bin/true".toList]) from rfl) hsession hresult hallow
    refine ⟨outcome, hmain, hallows, ?_⟩
    rintro ⟨options, args, hparse, ⟨ending, hending, -⟩, -⟩
    cases hparse
    cases hending

end ExeCell.Analyze
