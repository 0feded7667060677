import ExeCell.Cli.SandboxOptions
import ExeCell.Cli.Tracing
import ExeCell.Sandbox.Outcome

/-!
# The commands that run a target

`execell run`, `trace`, `inspect` and `sandbox` end with what became of their target. The
first forks by itself, the others by way of the tracer or the sandbox. For each of them a
zero stands for a target that was started and exited with status zero, and every exit code
fits into the byte that is left of it (`targetCommand_code`).
-/

namespace ExeCell.Cli

open WaitStatus (Ending Signal shellStatus ifExited ifSignaled exitStatus termSig)
open Sandbox (Config RunEnv)

/-! ## The command run -/

/-- What the system calls of `process::run` answer. -/
structure ProcessEnv where
  /-- The pid of the child, `none` when `fork` fails. -/
  fork : Option Pid := some 100
  /-- A signal that ends the child before it has become the target. -/
  killed : Option Signal := none
  exec : Bool := true
  /-- How the target ends, if it is started. -/
  target : Ending := .exited 0
  /-- `waitpid` succeeds. -/
  waited : Bool := true

/-- How the child ends; `execvp` returns only when it fails. -/
def ProcessEnv.childEnding (env : ProcessEnv) : Ending :=
  match env.killed with
  | some signal => .killed signal
  | none => if env.exec then env.target else .exited 127

/-- How the target ended, `none` when it was never started. -/
def ProcessEnv.targetEnding (env : ProcessEnv) : Option Ending :=
  if env.fork.isSome && env.killed.isNone && env.exec then some env.target else none

/-- `process::run`. -/
def processRun (env : ProcessEnv) : Ended :=
  match env.fork with
  | none => { code := 1 }
  | some pid =>
    let out := "execell: spawned pid ".toList ++ Text.ofInt pid ++ ['\n']
    if !env.waited then { code := 1, out := out }
    else
      let status := env.childEnding.status
      if ifExited status then
        { code := exitStatus status
          out := out ++ "[execell] process exited with code ".toList ++
            Text.ofNat (exitStatus status) ++ ['\n'] }
      else if ifSignaled status then
        { code := 128 + termSig status
          out := out ++ "[execell] process terminated by signal ".toList ++
            Text.ofNat (termSig status) ++ ['\n'] }
      else { code := 1, out := out }

section Process

variable {env : ProcessEnv}

theorem processRun_code (env : ProcessEnv) :
    (processRun env).code =
      if env.fork.isSome ∧ env.waited = true then shellStatus env.childEnding.status 1 else 1 := by
  rw [processRun]
  cases env.fork with
  | none => rfl
  | some pid =>
    dsimp only
    cases env.waited with
    | false => rfl
    | true =>
      simp only [Bool.not_true, Bool.false_eq_true, if_false, Option.isSome_some, and_self, if_true]
      rw [shellStatus]
      split
      · rfl
      split
      · rfl
      · rfl

theorem childEnding_zero :
    env.childEnding.status = 0 ↔ env.killed = none ∧ env.exec = true ∧ env.target.status = 0 := by
  rw [ProcessEnv.childEnding]
  cases env.killed with
  | some signal =>
    exact iff_of_false (Ending.status_killed_ne_zero signal) fun h => nomatch h.1
  | none =>
    cases env.exec with
    | false =>
      have hfailed : (Ending.exited 127).status ≠ 0 := by decide
      exact iff_of_false hfailed fun h => nomatch h.2.1
    | true => simp

/-- `execell run` ends with zero exactly when it could wait for a target that exited with
status zero. -/
theorem processRun_zero_iff :
    (processRun env).code = 0 ↔ env.waited = true ∧
      ∃ ending, env.targetEnding = some ending ∧ ending.status = 0 := by
  rw [processRun_code, ProcessEnv.targetEnding]
  split
  · rename_i hforked
    rw [Ending.shellStatus_eq_zero_iff, childEnding_zero, hforked.1, Bool.true_and]
    constructor
    · rintro ⟨hkilled, hexec, htarget⟩
      rw [hkilled, hexec]
      exact ⟨hforked.2, env.target, rfl, htarget⟩
    · rintro ⟨_, ending, hending, hstatus⟩
      split at hending
      · rename_i hstarted
        rw [Bool.and_eq_true, Option.isNone_iff_eq_none] at hstarted
        obtain rfl := Option.some.inj hending
        exact ⟨hstarted.1, hstarted.2, hstatus⟩
      · cases hending
  · rename_i hnot
    refine iff_of_false one_ne_zero ?_
    rintro ⟨hwaited, ending, hending, _⟩
    split at hending
    · rename_i hstarted
      simp only [Bool.and_eq_true] at hstarted
      exact hnot ⟨hstarted.1.1, hwaited⟩
    · cases hending

theorem processRun_range : 0 ≤ (processRun env).code ∧ (processRun env).code < 256 := by
  rw [processRun_code]
  split
  · exact ⟨Ending.shellStatus_nonneg _ _, Ending.shellStatus_lt _ _⟩
  · decide

end Process

/-! ## The four commands -/

/-- What the system answers when a target is run. -/
structure TargetHost where
  process : List Text → ProcessEnv
  traced : System
  sandboxed : Config → List Text → RunEnv

/-- `main` for the four commands, by the exit code. The first argument is the command. -/
def targetCommand (host : TargetHost) (executable command : Text) (args : List Text) :
    Option Int :=
  -- `argc < 3`
  if args = [] then some 1
  else if command = "run".toList then some (processRun (host.process args)).code
  else if command = "trace".toList then (trace args host.traced).map Ended.code
  else if command = "inspect".toList then
    match inspect executable args host.traced with
    | .error _ => some 1
    | .ok ended => ended.map Ended.code
  else if command = "sandbox".toList then
    match parseSandbox args with
    | .error _ => some 1
    | .ok (_, []) => some 1
    | .ok (config, program :: rest) =>
      (host.sandboxed config (program :: rest)).result config
  else some 1

/-- The target behind the options of a command, with how it ended. -/
inductive Ran (host : TargetHost) : Text → List Text → Ending → Prop where
  | run {args : List Text} {ending : Ending}
      (h : (host.process args).targetEnding = some ending) : Ran host "run".toList args ending
  | trace {args : List Text} {ending : Ending}
      (h : (host.traced (if AsksJson args then args.drop 2 else args)).targetEnding = some ending) :
      Ran host "trace".toList args ending
  | inspect {args target : List Text} {options : InspectOptions} {ending : Ending}
      (hparse : parseInspect args = .ok (options, target))
      (h : (host.traced target).targetEnding = some ending) : Ran host "inspect".toList args ending
  | sandbox {args target : List Text} {config : Config} {ending : Ending}
      (hparse : parseSandbox args = .ok (config, target))
      (h : (host.sandboxed config target).targetEnding config = some ending) :
      Ran host "sandbox".toList args ending

section Codes

variable {host : TargetHost} {executable command : Text} {args target : List Text} {code : Int}
  {options : InspectOptions} {system : System} {ended : Ended}

/-- `trace` is a run of the tracer with one of two reporters. -/
theorem trace_run (h : trace args system = some ended) :
    ∃ (ρ : Type) (R : Report.Reporter ρ) (reporter reporter' : ρ), Trace.run R reporter
      (system (if AsksJson args then args.drop 2 else args)) = some (ended.code, reporter') := by
  rw [trace] at h
  split at h
  · rename_i hjson
    obtain ⟨⟨code, json⟩, hrun, rfl⟩ := Option.map_eq_some_iff.mp h
    rw [if_pos hjson]
    exact ⟨_, jsonReporter, {}, json, hrun⟩
  · rename_i hterminal
    obtain ⟨⟨code, written⟩, hrun, rfl⟩ := Option.map_eq_some_iff.mp h
    rw [if_neg hterminal]
    exact ⟨_, terminalReporter, [], written, hrun⟩

theorem inspectTarget_run {env : Trace.TraceEnv} (h : inspectTarget options env = some ended) :
    ∃ (ρ : Type) (R : Report.Reporter ρ) (reporter reporter' : ρ),
      Trace.run R reporter env = some (ended.code, reporter') := by
  rw [inspectTarget] at h
  split at h
  · obtain ⟨⟨code, policy⟩, hrun, rfl⟩ := Option.map_eq_some_iff.mp h
    exact ⟨_, _, _, policy, hrun⟩
  · obtain ⟨⟨code, policy⟩, hrun, rfl⟩ := Option.map_eq_some_iff.mp h
    exact ⟨_, _, _, policy, hrun⟩

/-- Each of the commands fails by itself, or ends with what its run has come to. -/
theorem targetCommand_cases (h : targetCommand host executable command args = some code) :
    code = 1 ∨
      (command = "run".toList ∧ code = (processRun (host.process args)).code) ∨
      (∃ (ρ : Type) (R : Report.Reporter ρ) (reporter reporter' : ρ) (target : List Text),
        (∀ ending, (host.traced target).targetEnding = some ending →
          Ran host command args ending) ∧
        Trace.run R reporter (host.traced target) = some (code, reporter')) ∨
      ∃ config target, (∀ ending, (host.sandboxed config target).targetEnding config = some ending →
          Ran host command args ending) ∧
        (host.sandboxed config target).result config = some code := by
  rw [targetCommand] at h
  split at h
  · exact Or.inl (Option.some.inj h).symm
  split at h
  · rename_i hcommand
    exact Or.inr (Or.inl ⟨hcommand, (Option.some.inj h).symm⟩)
  split at h
  · rename_i hcommand
    obtain ⟨ended, htrace, rfl⟩ := Option.map_eq_some_iff.mp h
    obtain ⟨ρ, R, reporter, reporter', hrun⟩ := trace_run htrace
    refine Or.inr (Or.inr (Or.inl ⟨ρ, R, reporter, reporter', _, ?_, hrun⟩))
    intro ending hending
    rw [hcommand]
    exact .trace hending
  split at h
  · rename_i hcommand
    split at h
    · exact Or.inl (Option.some.inj h).symm
    rename_i ended hinspect
    rw [inspect] at hinspect
    split at hinspect
    · cases hinspect
    · cases hinspect
      exact Or.inl (Option.some.inj h).symm
    · rename_i options program rest hparse
      cases hinspect
      obtain ⟨ended, htarget, rfl⟩ := Option.map_eq_some_iff.mp h
      obtain ⟨ρ, R, reporter, reporter', hrun⟩ := inspectTarget_run htarget
      refine Or.inr (Or.inr (Or.inl ⟨ρ, R, reporter, reporter', _, ?_, hrun⟩))
      intro ending hending
      rw [hcommand]
      exact .inspect hparse hending
  split at h
  · rename_i hcommand
    split at h
    · exact Or.inl (Option.some.inj h).symm
    · exact Or.inl (Option.some.inj h).symm
    · rename_i config program rest hparse
      refine Or.inr (Or.inr (Or.inr ⟨config, program :: rest, ?_, h⟩))
      intro ending hending
      rw [hcommand]
      exact .sandbox hparse hending
  · exact Or.inl (Option.some.inj h).symm

/-- The exit code of each command fits into a byte, so that no other code is taken for zero;
and it is zero only when the target was started and exited with status zero. -/
theorem targetCommand_code (h : targetCommand host executable command args = some code) :
    0 ≤ code ∧ code < 256 ∧
      (code = 0 → ∃ ending, Ran host command args ending ∧ ending.status = 0) := by
  rcases targetCommand_cases h with rfl | ⟨rfl, rfl⟩ |
    ⟨ρ, R, reporter, reporter', target, hran, hrun⟩ | ⟨config, target, hran, hresult⟩
  · exact ⟨by decide, by decide, fun hzero => absurd hzero one_ne_zero⟩
  · refine ⟨processRun_range.1, processRun_range.2, ?_⟩
    intro hzero
    obtain ⟨_, ending, hending, hstatus⟩ := processRun_zero_iff.mp hzero
    exact ⟨ending, .run hending, hstatus⟩
  · obtain ⟨hlow, hhigh⟩ := Trace.run_range R hrun
    refine ⟨hlow, hhigh, ?_⟩
    rintro rfl
    obtain ⟨ending, hending, hstatus⟩ := Trace.run_zero R hrun
    exact ⟨ending, hran ending hending, hstatus⟩
  · obtain ⟨hlow, hhigh⟩ := RunEnv.result_range hresult
    refine ⟨hlow, hhigh, ?_⟩
    rintro rfl
    obtain ⟨ending, hending, hstatus⟩ := RunEnv.result_zero hresult
    exact ⟨ending, hran ending hending, hstatus⟩

end Codes

/-- Every target exits with status zero; the sandbox cannot be set up. -/
def quietHost : TargetHost where
  process _ := {}
  traced _ := Analyze.quietTrace
  sandboxed _ _ :=
    { host := {}, ids := { pid := 101, uid := 1000, gid := 1000 }, fork := false
      trace := Analyze.quietTrace }

theorem targetCommand_code_inspect :
    let args := ["--max-processes".toList, "4".toList, "/bin/true".toList]
    targetCommand quietHost "execell".toList "inspect".toList args = some 0 ∧
      ∃ ending, Ran quietHost "inspect".toList args ending ∧ ending.status = 0 := by
  intro args
  have hcode : targetCommand quietHost "execell".toList "inspect".toList args = some 0 := by
    decide +kernel
  exact ⟨hcode, (targetCommand_code hcode).2.2 rfl⟩

end ExeCell.Cli
