import ExeCell.Sandbox.Capture
import ExeCell.Sandbox.Setup
import ExeCell.Sandbox.StderrTrace
import ExeCell.Trace.Launch

/-!
# The outcome of a sandboxed run

`sandbox::run` to its end, over the setup of both processes in `Setup`, and the child of
`run_captured`, whose exit status is what `sandbox::run` returned in it.

As for `trace::run`, how the target ends is part of the environment, and `waitpid` reports
a process as it ended. Through all layers a zero stands for a target that was started and
exited with status zero.
-/

namespace ExeCell.Sandbox

open WaitStatus

/-- What the system calls of `sandbox::run` answer, in both processes. -/
structure RunEnv where
  host : Host
  ids : Ids
  pipe : Bool := true
  fork : Bool := true
  /-- The calls of the setup. -/
  moves : List Move := []
  /-- A signal that ends the child before it starts the target. -/
  killed : Option Signal := none
  exec : Bool := true
  /-- How the target ends, if it is started without the tracer. -/
  target : Ending := .exited 0
  trace : Trace.TraceEnv
  writes : Event → List WriteAnswer := fun _ => []
  /-- The last `waitpid` of the parent succeeds. -/
  waited : Bool := true

namespace RunEnv

variable (env : RunEnv) (config : Config)

/-- Both processes after the setup, `none` when there is no child. -/
def world : Option World :=
  match launch env.host config env.ids env.pipe env.fork with
  | none => none
  | some w => (Machine.run setupStep w env.moves).map Prod.snd

/-- How the child ends that has come as far as `state`; `none` while it has a call of the
setup to make. -/
def childEnding (state : ChildState) : Option Ending :=
  match state, env.killed with
  | .exited, _ => some (.exited 127)
  | .killed, _ => some (.killed ⟨Trace.sigKill, by decide, by decide⟩)
  | .running _ _, some signal => some (.killed signal)
  | .running (_ :: _) _, none => none
  | .running [] _, none =>
    if config.traceEvents then
      (Trace.run (stderrTraceReporter env.writes) [] env.trace).map fun result =>
        .exited result.1.toNat
    else if env.exec then some env.target
    else some (.exited 127)

/-- How the target ended, `none` when it was never started. -/
def targetEnding : Option Ending :=
  match env.world config with
  | none => none
  | some w =>
    match w.child, env.killed with
    | .running [] _, none =>
      if config.traceEvents then env.trace.targetEnding
      else if env.exec then some env.target
      else none
    | _, _ => none

/-- The result of `sandbox::run`; `none` when the environment does not lead to its end. -/
def result : Option Int :=
  match launch env.host config env.ids env.pipe env.fork with
  | none => some Trace.exitFailure
  | some w =>
    match Machine.run setupStep w env.moves with
    | none => none
    | some (_, w) =>
      match w.parent with
      | .failed => some Trace.exitFailure
      | .running (_ :: _) _ => none
      | .running [] _ =>
        if env.waited then
          (env.childEnding config w.child).map fun ending =>
            shellStatus ending.status Trace.exitFailure
        else some Trace.exitFailure

variable {env config}

theorem childEnding_zero {state : ChildState} {ending : Ending}
    (h : env.childEnding config state = some ending) (hzero : ending.status = 0) :
    (∃ progress, state = .running [] progress) ∧ env.killed = none ∧
      ∃ target, (if config.traceEvents then env.trace.targetEnding
        else if env.exec then some env.target else none) = some target ∧ target.status = 0 := by
  rw [childEnding.eq_def] at h
  split at h
  · cases h
    exact absurd hzero (by decide)
  · cases h
    exact absurd hzero (by decide)
  · cases h
    exact absurd hzero (Ending.status_killed_ne_zero _)
  · cases h
  · rename_i progress hkilled
    refine ⟨⟨progress, rfl⟩, hkilled, ?_⟩
    split at h
    · rename_i htrace
      rw [Option.map_eq_some_iff] at h
      obtain ⟨⟨code, written⟩, hrun, rfl⟩ := h
      -- the tracer's result is a byte, so that `_exit` does not cut it
      have hrange := Trace.run_range _ hrun
      have hcode : code = 0 := by
        simp only [Ending.status, ofExit] at hzero
        omega
      subst hcode
      rw [if_pos htrace]
      exact Trace.run_zero _ hrun
    · rename_i htrace
      rw [if_neg htrace]
      split at h
      · rename_i hexec
        cases h
        exact ⟨env.target, if_pos hexec, hzero⟩
      · cases h
        exact absurd hzero (by decide)

/-- `sandbox::run` returns zero only for a target that was started and ended with status
zero. -/
theorem result_zero (h : env.result config = some 0) :
    ∃ target, env.targetEnding config = some target ∧ target.status = 0 := by
  rw [result.eq_def] at h
  split at h
  · cases h
  · rename_i w hlaunch
    split at h
    · cases h
    · rename_i u hrun
      split at h
      · cases h
      · cases h
      · split at h
        · rw [Option.map_eq_some_iff] at h
          obtain ⟨ending, hending, hcode⟩ := h
          have hzero := (Ending.shellStatus_eq_zero_iff _ _).mp hcode
          obtain ⟨⟨progress, hchild⟩, hkilled, htarget⟩ := childEnding_zero hending hzero
          rw [targetEnding, world, hlaunch]
          simpa only [hrun, Option.map_some, hchild, hkilled] using htarget
        · cases h

theorem result_range {code : Int} (h : env.result config = some code) : 0 ≤ code ∧ code < 256 := by
  have hfailure : 0 ≤ Trace.exitFailure ∧ Trace.exitFailure < 256 := by decide
  rw [result.eq_def] at h
  split at h
  · cases h
    exact hfailure
  · split at h
    · cases h
    · split at h
      · cases h
        exact hfailure
      · cases h
      · split at h
        · rw [Option.map_eq_some_iff] at h
          obtain ⟨ending, -, rfl⟩ := h
          exact ⟨Ending.shellStatus_nonneg _ _, Ending.shellStatus_lt _ _⟩
        · cases h
          exact hfailure

end RunEnv

/-! ## The deadline and the limit -/

/-- The number of bytes that a call of `drain` reads. -/
def Drain.size (input : Drain) : Nat := (input.chunks.map fun chunk => chunk.bytes.length).sum

/-- The number of bytes that a turn of the loop reads. -/
def Pass.size (pass : Pass) : Nat := pass.out.size + pass.err.size

/-- Something was read, and it reaches the limit. -/
def overLimit (limit total : Nat) : Bool := 0 < total && limit ≤ total

/-- The passes end the loop by themselves: their bytes reach the limit, or the clock has
passed the deadline in the last one. -/
def cutShort (limit : Nat) (passes : List Pass) : Bool :=
  overLimit limit (passes.map Pass.size).sum || passes.getLast?.any (·.expired)

theorem drainChunks_total (limit total : Nat) (chunks : List Chunk) :
    (drainChunks limit total chunks).2 =
      total + (chunks.map fun chunk => chunk.bytes.length).sum := by
  induction chunks generalizing total with
  | nil => rfl
  | cons chunk chunks ih =>
    rw [drainChunks]
    dsimp only
    rw [ih, List.map_cons, List.sum_cons, Nat.add_assoc]

theorem Drain.size_pos {input : Drain} (h : input.chunks ≠ []) : 0 < input.size := by
  cases hchunks : input.chunks with
  | nil => exact absurd hchunks h
  | cons chunk chunks =>
    have hnonempty : 0 < chunk.bytes.length := List.length_pos_iff.mpr chunk.nonempty
    rw [Drain.size, hchunks, List.map_cons, List.sum_cons]
    omega

/-- The flag follows the number of bytes read. -/
def Tally.Flagged (limit : Nat) (tally : Tally) : Prop :=
  tally.outputLimited = overLimit limit tally.totalOutput

theorem drain_total (limit : Nat) (fd : PipeEnd) (input : Drain) (target : Text) (isOpen : Bool)
    (tally : Tally) :
    (drain limit fd input target isOpen tally).2.2.totalOutput = tally.totalOutput + input.size :=
  drainChunks_total ..

theorem drain_flagged {limit : Nat} {tally : Tally} (h : tally.Flagged limit) (fd : PipeEnd)
    (input : Drain) (target : Text) (isOpen : Bool) :
    (drain limit fd input target isOpen tally).2.2.Flagged limit := by
  rw [Tally.Flagged, drain_total]
  have hflag : (drain limit fd input target isOpen tally).2.2.outputLimited =
      (tally.outputLimited ||
        !input.chunks.isEmpty && decide (limit ≤ tally.totalOutput + input.size)) := by
    rw [← drain_total limit fd input target isOpen tally]
    rfl
  rw [hflag, h]
  cases hchunks : input.chunks with
  | nil =>
    have hsize : input.size = 0 := by rw [Drain.size, hchunks]; rfl
    simp [hsize]
  | cons chunk chunks =>
    have hpos : 0 < input.size := Drain.size_pos (by rw [hchunks]; exact List.cons_ne_nil _ _)
    rw [Bool.eq_iff_iff]
    simp only [overLimit, List.isEmpty_cons, Bool.not_false, Bool.true_and, Bool.or_eq_true,
      Bool.and_eq_true, decide_eq_true_eq]
    omega

theorem drainBoth_total (limit : Nat) (s : Capture) (pass : Pass) :
    (drainBoth limit s pass).tally.totalOutput = s.tally.totalOutput + pass.size := by
  have hout := drain_total limit .outRead pass.out s.stdoutData s.outOpen s.tally
  have herr : (drainBoth limit s pass).tally.totalOutput =
      (drain limit .outRead pass.out s.stdoutData s.outOpen s.tally).2.2.totalOutput +
        pass.err.size := drain_total limit .errRead pass.err s.stderrData s.errOpen _
  rw [herr, hout, Pass.size, Nat.add_assoc]

theorem drainBoth_flagged {limit : Nat} {s : Capture} (h : s.tally.Flagged limit) (pass : Pass) :
    (drainBoth limit s pass).tally.Flagged limit :=
  drain_flagged (drain_flagged h .outRead pass.out s.stdoutData s.outOpen) .errRead pass.err
    s.stderrData s.errOpen

/-- The loop stops early, by the limit or by the deadline, exactly for passes that cut it
short. -/
theorem captureLoop_cut {limit : Nat} {s s' : Capture} {passes : List Pass}
    (hflag : s.tally.Flagged limit) (hlive : s.tally.outputLimited = false)
    (htime : s.timedOut = false) (h : captureLoop limit s passes = some s') :
    (s'.timedOut || s'.tally.outputLimited) =
      (overLimit limit (s.tally.totalOutput + (passes.map Pass.size).sum) ||
        passes.getLast?.any (·.expired)) := by
  induction passes generalizing s with
  | nil =>
    rw [captureLoop_nil h, htime, hlive]
    simpa using hflag.symm.trans hlive
  | cons pass passes ih =>
    have hflag' := drainBoth_flagged hflag pass
    have htotal := drainBoth_total limit s pass
    have htime' : (drainBoth limit s pass).timedOut = false := htime
    rw [List.map_cons, List.sum_cons, ← Nat.add_assoc, ← htotal]
    rw [captureLoop] at h
    split at h
    · dsimp only at h
      split at h
      · rename_i hlimited
        split at h
        · rename_i hlast
          obtain rfl := Option.some.inj h
          rw [List.isEmpty_iff.mp hlast, List.map_nil, List.sum_nil, Nat.add_zero,
            ← hflag', hlimited, Bool.or_true, Bool.true_or]
        · cases h
      · rename_i hlimited
        split at h
        · rename_i hexpired
          split at h
          · rename_i hlast
            obtain rfl := Option.some.inj h
            simp [List.isEmpty_iff.mp hlast, hexpired]
          · cases h
        · rename_i hexpired
          rw [Bool.not_eq_true] at hlimited
          rw [ih hflag' hlimited htime' h]
          cases passes with
          | nil => simp [hexpired]
          | cons next rest => rw [List.getLast?_cons_cons]
    · cases h

/-- A call of `run_captured` has no child, or its flags tell whether the passes cut the
loop short and its status is made of what `waitpid` has stored. -/
theorem runCaptured_cases {args : List Text} {limit : Nat} {env : CaptureEnv} {result : Captured}
    {log : List (DescriptorLog.Op PipeEnd)} (hargs : args ≠ [])
    (h : runCaptured args limit env = some (result, log)) :
    ((env.outPipe && env.errPipe && env.fork) = false ∧ result = {}) ∨
      ((env.outPipe && env.errPipe && env.fork) = true ∧
        (result.timedOut || result.outputLimited) = cutShort limit env.passes ∧
        result.status = captureStatus result.timedOut (env.wait.getD 0)) := by
  rw [runCaptured.eq_def] at h
  cases hout : env.outPipe with
  | false =>
    rw [if_pos (by simp [hout])] at h
    split at h
    · cases h
      exact Or.inl ⟨rfl, rfl⟩
    · cases h
  | true =>
    rw [if_neg (by simp [hargs, hout])] at h
    cases herr : env.errPipe with
    | false =>
      rw [if_pos (by simp [herr])] at h
      split at h
      · cases h
        exact Or.inl ⟨rfl, rfl⟩
      · cases h
    | true =>
      rw [if_neg (by simp [herr])] at h
      cases hfork : env.fork with
      | false =>
        rw [if_pos (by simp [hfork])] at h
        split at h
        · cases h
          exact Or.inl ⟨rfl, rfl⟩
        · cases h
      | true =>
        rw [if_neg (by simp [hfork])] at h
        split at h
        · cases h
        · rename_i s hloop
          cases h
          refine Or.inr ⟨rfl, ?_, rfl⟩
          have hcut := captureLoop_cut (by rfl) rfl rfl hloop
          rwa [Nat.zero_add] at hcut

/-! ## The child of `run_captured` -/

/-- What the system calls of `run_captured` answer, in both processes. -/
structure CaptureRun where
  outPipe : Bool := true
  errPipe : Bool := true
  fork : Bool := true
  passes : List Pass := []
  setpgid : Bool := true
  /-- A signal that ends the child before `sandbox::run` has returned in it. -/
  killed : Option Signal := none
  run : RunEnv
  /-- The `waitpid` of the parent succeeds, perhaps after interruptions. -/
  waited : Bool := true

namespace CaptureRun

variable (env : CaptureRun) (config : Config)

/-- There is a child. -/
def forked : Bool := env.outPipe && env.errPipe && env.fork

/-- How the child ends: with what `sandbox::run` returns. -/
def childEnding : Option Ending :=
  match env.killed with
  | some signal => some (.killed signal)
  | none =>
    if env.setpgid then (env.run.result config).map fun code => .exited code.toNat
    else some (.exited 127)

/-- How the target ended, `none` when it was never started. -/
def targetEnding : Option Ending :=
  if env.forked && env.setpgid then env.run.targetEnding config else none

/-- The answers in the parent; `none` while the child that it waits for goes on. -/
def captureEnv : Option CaptureEnv :=
  let answers (wait : Option Nat) : CaptureEnv :=
    { outPipe := env.outPipe, errPipe := env.errPipe, fork := env.fork, passes := env.passes,
      wait := wait }
  if env.waited then (env.childEnding config).map fun ending => answers (some ending.status)
  else some (answers none)

/-- `run_captured`. -/
def captured (args : List Text) (limit : Nat) : Option Captured :=
  match env.captureEnv config with
  | none => none
  | some answers => (runCaptured args limit answers).map Prod.fst

variable {env config}

theorem childEnding_zero {ending : Ending} (hforked : env.forked = true)
    (h : env.childEnding config = some ending) (hzero : ending.status = 0) :
    ∃ target, env.targetEnding config = some target ∧ target.status = 0 := by
  rw [childEnding.eq_def] at h
  split at h
  · cases h
    exact absurd hzero (Ending.status_killed_ne_zero _)
  · split at h
    · rename_i hsetpgid
      rw [Option.map_eq_some_iff] at h
      obtain ⟨code, hresult, rfl⟩ := h
      have hrange := RunEnv.result_range hresult
      have hcode : code = 0 := by
        simp only [Ending.status, ofExit] at hzero
        omega
      subst hcode
      rw [targetEnding, hforked, hsetpgid]
      exact RunEnv.result_zero hresult
    · cases h
      exact absurd hzero (by decide)

/-- The answers in the parent when nothing goes wrong around `sandbox::run`. -/
theorem captureEnv_of_result {code : Int} (hkilled : env.killed = none)
    (hsetpgid : env.setpgid = true) (hwaited : env.waited = true)
    (hresult : env.run.result config = some code) :
    env.captureEnv config =
      some { outPipe := env.outPipe, errPipe := env.errPipe, fork := env.fork,
             passes := env.passes, wait := some (Ending.exited code.toNat).status } := by
  rw [captureEnv, if_pos hwaited, childEnding, hkilled]
  dsimp only
  rw [if_pos hsetpgid, hresult]
  rfl

/-- The cases of `run_captured` with its child: there is none; it has been waited for; or
the `waitpid` failed, and the status is what the word zero comes to. -/
theorem captured_cases {args : List Text} {limit : Nat} {captured : Captured} (hargs : args ≠ [])
    (h : env.captured config args limit = some captured) :
    (env.forked = false ∧ captured = {}) ∨
      (env.forked = true ∧
        (captured.timedOut || captured.outputLimited) = cutShort limit env.passes ∧
        ((env.waited = true ∧ ∃ ending, env.childEnding config = some ending ∧
            captured.status = captureStatus captured.timedOut ending.status) ∨
          (env.waited = false ∧ captured.status = captureStatus captured.timedOut 0))) := by
  rw [CaptureRun.captured] at h
  split at h
  · cases h
  · rename_i answers hanswers
    rw [Option.map_eq_some_iff] at h
    obtain ⟨⟨result, log⟩, hrun, rfl⟩ := h
    rw [captureEnv] at hanswers
    cases hwaited : env.waited with
    | true =>
      rw [hwaited, if_pos rfl, Option.map_eq_some_iff] at hanswers
      obtain ⟨ending, hending, rfl⟩ := hanswers
      rcases runCaptured_cases hargs hrun with hnone | ⟨hforked, hcut, hstatus⟩
      · exact Or.inl hnone
      · exact Or.inr ⟨hforked, hcut, Or.inl ⟨rfl, ending, hending, hstatus⟩⟩
    | false =>
      rw [hwaited, if_neg Bool.false_ne_true] at hanswers
      cases hanswers
      rcases runCaptured_cases hargs hrun with hnone | ⟨hforked, hcut, hstatus⟩
      · exact Or.inl hnone
      · exact Or.inr ⟨hforked, hcut, Or.inr ⟨rfl, hstatus⟩⟩

end CaptureRun

end ExeCell.Sandbox
