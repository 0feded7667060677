import ExeCell.Trace.Effect

/-!
# Starting a target under the tracer

`trace::run` as a whole: the fork, the child that asks to be traced and executes the
target, the initial wait, the options, and then the loop of `Tracer`.

What becomes of the child is part of the environment. `waitpid` is taken at its word
(`TraceEnv.honest`): a status that tells of the end of the root is the status with which
the root did end. So `trace::run` returns zero only for a target that was started and
exited with status zero.
-/

namespace ExeCell.Trace

open Report WaitStatus

/-- The child of `trace::run`. -/
structure TracedChild where
  /-- A signal that ends the process before it has become the target. -/
  killed : Option Signal := none
  traceme : Bool := true
  exec : Bool := true
  /-- How the target ends, if it is started. -/
  target : Ending := .exited 0

namespace TracedChild

/-- The process becomes the target. -/
def starts (child : TracedChild) : Bool := child.killed.isNone && child.traceme && child.exec

/-- How the process ends; without a target it is `_exit(127)` or a signal. -/
def ending (child : TracedChild) : Ending :=
  match child.killed with
  | some signal => .killed signal
  | none => if child.traceme && child.exec then child.target else .exited 127

theorem ending_of_status_zero {child : TracedChild} (h : child.ending.status = 0) :
    child.starts = true ∧ child.target.status = 0 := by
  rw [ending.eq_def] at h
  split at h
  · exact absurd h (Ending.status_killed_ne_zero _)
  · rename_i hkilled
    split at h
    · rename_i hcalls
      rw [Bool.and_eq_true] at hcalls
      exact ⟨by simp [starts, hkilled, hcalls], h⟩
    · exact absurd h (by decide)

end TracedChild

/-- What the system calls of `trace::run` answer. -/
structure TraceEnv where
  /-- The pid of the child, `none` when `fork` fails. -/
  fork : Option Pid := some 100
  child : TracedChild := {}
  initialWait : Except Errno Nat := .ok (ofStop 0 sigTrap)
  setOptions : Except Errno Unit := .ok ()
  answers : List Answers := []
  honest : ∀ root ∈ fork, ∀ turn ∈ answers, ∀ status, turn.wait = .ok (root, status) →
    ifEnded status → status = child.ending.status

/-- A single answer that reports the end of the child is honest. -/
theorem honest_singleton {child : TracedChild} {fork : Option Pid} {answer : Answers} {pid : Pid}
    (h : answer.wait = .ok (pid, child.ending.status)) :
    ∀ root ∈ fork, ∀ turn ∈ [answer], ∀ status, turn.wait = .ok (root, status) →
      ifEnded status → status = child.ending.status := by
  intro root _ turn hturn status hwait _
  rw [List.mem_singleton.mp hturn, h] at hwait
  simp only [Except.ok.injEq, Prod.mk.injEq] at hwait
  exact hwait.2.symm

/-- If the turn tells of an end, it is this one. -/
def Answers.tells (ending : Ending) (turn : Answers) : Bool :=
  match turn.wait with
  | .ok (_, status) => !ifEnded status || status = ending.status
  | .error _ => true

theorem honest_of_tells {child : TracedChild} {fork : Option Pid} {answers : List Answers}
    (h : answers.all (Answers.tells child.ending) = true) :
    ∀ root ∈ fork, ∀ turn ∈ answers, ∀ status, turn.wait = .ok (root, status) →
      ifEnded status → status = child.ending.status := by
  intro root _ turn hturn status hwait hended
  have htells := List.all_eq_true.mp h turn hturn
  rw [Answers.tells, hwait] at htells
  simpa [hended] using htells

/-- The child is reported as it has ended, and there is nothing before that. -/
def TraceEnv.reporting (child : TracedChild) : TraceEnv where
  child := child
  answers := [{ wait := .ok (100, child.ending.status), tracee := .error esrch }]
  honest := honest_singleton rfl

/-- How the target ended, `none` when it was never started. -/
def TraceEnv.targetEnding (env : TraceEnv) : Option Ending :=
  if env.fork.isSome && env.child.starts then some env.child.target else none

variable {ρ : Type} (R : Reporter ρ)

/-- `trace::run` in the parent: its result and what the reporter has become. The answers
must be those that the loop asks for. -/
def run (reporter : ρ) (env : TraceEnv) : Option (Int × ρ) :=
  match env.fork, env.initialWait, env.setOptions with
  | none, _, _ => some (exitFailure, reporter)
  | some _, .error _, _ => some (exitFailure, reporter)
  | some _, .ok _, .error _ => some (exitFailure, reporter)
  | some root, .ok _, .ok _ =>
    match Machine.run (step R) (start R root reporter).2 env.answers with
    | none => none
    | some (_, s) => s.result.map fun code => (code, s.reporter)

/-! ## What a handler leaves alone -/

/-- The root and the result of the loop. -/
def Loop.frame (s : Loop ρ) : Pid × Option Int := (s.rootPid, s.returned)

theorem frame_emit (s : Loop ρ) (payload : Payload) (pid : Pid) :
    (emit R s payload pid).2.frame = s.frame := rfl

theorem frame_emitOption (s : Loop ρ) (payload : Option Payload) (pid : Pid) :
    (emitOption R s payload pid).2.frame = s.frame := by
  cases payload with
  | none => rfl
  | some payload => exact frame_emit R s payload pid

theorem frame_announceChild (s : Loop ρ) (stop : Stop) (message : Nat) :
    (announceChild R s stop message).2.frame = s.frame := by
  unfold announceChild
  split
  · rfl
  · exact frame_emit ..

theorem frame_decodeStop (s : Loop ρ) (task : Task) (pid : Pid) (tracee : Tracee) :
    (decodeStop R s task pid tracee).2.frame = s.frame := by
  have hreported : ∀ (payload : Option Payload) (tasks : TaskRegistry),
      ({ (emitOption R s payload pid).2 with tasks := tasks } : Loop ρ).frame = s.frame :=
    fun payload _ => frame_emitOption R s payload pid
  unfold decodeStop
  split
  · exact hreported _ _
  · exact hreported _ _
  · rfl

/-! ## What the loop returns -/

/-- The loop runs for `root`, and has returned nothing yet, or `EXIT_FAILURE`, or what
`ending` makes of it. -/
def Concluded (root : Pid) (ending : Ending) (frame : Pid × Option Int) : Prop :=
  frame.1 = root ∧
    ∀ code ∈ frame.2, code = exitFailure ∨ code = shellStatus ending.status exitFailure

section Concluded

variable {R} {root : Pid} {ending : Ending} {s : Loop ρ}

theorem concluded_failure (h : Concluded root ending s.frame) {t : Loop ρ}
    (hroot : t.rootPid = s.rootPid) (hreturned : t.returned = some exitFailure) :
    Concluded root ending t.frame := by
  refine ⟨hroot.trans h.1, ?_⟩
  intro code hcode
  rw [Loop.frame, hreturned] at hcode
  exact Or.inl (Option.some.inj hcode).symm

theorem concluded_handleEvent (h : Concluded root ending s.frame) (stop : Stop)
    (answers : Answers) : Concluded root ending (handleEvent R s stop answers).2.frame := by
  unfold handleEvent
  split
  · exact concluded_failure h rfl rfl
  · dsimp only
    have hannounced := frame_announceChild R s stop
    split
    · rename_i message _ _
      exact hannounced message ▸ h
    · exact h

theorem concluded_handleSyscall (h : Concluded root ending s.frame) (stop : Stop)
    (answers : Answers) : Concluded root ending (handleSyscall R s stop answers).2.frame := by
  unfold handleSyscall
  split
  · exact h
  · split
    · split
      · exact h
      · exact concluded_failure h rfl rfl
    · exact frame_decodeStop R s _ _ _ ▸ h

/-- The end of the root is what the loop returns. -/
theorem concluded_handleEnd (h : Concluded root ending s.frame) {pid : Pid} {status : Nat}
    (hkind : (classifyStop pid status).kind = .exited ∨ (classifyStop pid status).kind = .signaled)
    (hhonest : pid = root → ifEnded status → status = ending.status) :
    Concluded root ending (handleEnd R s (classifyStop pid status)).2.frame := by
  obtain ⟨hpid, hended, hcode⟩ := classifyStop_ended hkind
  unfold handleEnd
  dsimp only
  split
  · rename_i hroot
    refine ⟨h.1, ?_⟩
    intro code hreturned
    have hstatus : status = ending.status := hhonest (hpid ▸ hroot.trans h.1) hended
    apply Or.inr
    rw [← Option.some.inj hreturned, ← hstatus, ← hcode]
    simp
  · exact h

theorem concluded_handleStop (h : Concluded root ending s.frame) {pid : Pid} {status : Nat}
    (answers : Answers) (hhonest : pid = root → ifEnded status → status = ending.status) :
    Concluded root ending (handleStop R s (classifyStop pid status) answers).2.frame := by
  unfold handleStop
  split
  · rename_i hkind
    exact concluded_handleEnd h (Or.inl hkind) hhonest
  · rename_i hkind
    exact concluded_handleEnd h (Or.inr hkind) hhonest
  · exact concluded_handleEvent h _ answers
  · exact concluded_handleSyscall h _ answers
  · exact h
  · exact h
  · exact h

theorem concluded_step {answers : Answers} {actions : List Action} {t : Loop ρ}
    (h : Concluded root ending s.frame)
    (hhonest : ∀ status, answers.wait = .ok (root, status) → ifEnded status →
      status = ending.status)
    (hstep : step R s answers = some (actions, t)) : Concluded root ending t.frame := by
  have hresumed : Concluded root ending (resumeStopped s answers).2.frame := by
    unfold resumeStopped
    split
    · cases resumeFailed answers.resume with
      | true => exact concluded_failure h rfl rfl
      | false => exact h
    · exact h
  unfold step at hstep
  split at hstep
  · cases hstep
  · dsimp only at hstep
    split at hstep
    · simp only [Option.some.injEq] at hstep
      rw [hstep] at hresumed
      exact hresumed
    · split at hstep
      · simp only [Option.some.injEq, Prod.mk.injEq] at hstep
        obtain ⟨-, rfl⟩ := hstep
        exact concluded_failure hresumed rfl rfl
      · rename_i pid status hwait
        simp only [Option.some.injEq, Prod.mk.injEq] at hstep
        obtain ⟨-, rfl⟩ := hstep
        have hcurrent : Concluded root ending
            ({ (resumeStopped s answers).2 with currentPid := pid } : Loop ρ).frame := hresumed
        apply concluded_handleStop hcurrent answers
        rintro rfl
        exact hhonest status hwait

end Concluded

/-- `trace::run` returns `EXIT_FAILURE`, or what the end of its child comes to. -/
theorem run_code {reporter reporter' : ρ} {env : TraceEnv} {code : Int}
    (h : run R reporter env = some (code, reporter')) :
    code = exitFailure ∨
      (env.fork.isSome ∧ code = shellStatus env.child.ending.status exitFailure) := by
  rw [run.eq_def] at h
  split at h
  · cases h
    exact Or.inl rfl
  · cases h
    exact Or.inl rfl
  · cases h
    exact Or.inl rfl
  · rename_i root _ _ hfork _ _
    split at h
    · cases h
    · rename_i outputs s hrun
      have hstart : Concluded root env.child.ending (start R root reporter).2.frame :=
        ⟨rfl, fun code hcode => nomatch hcode⟩
      have hhonest : Machine.Along (step R)
          (fun _ turn => ∀ status, turn.wait = .ok (root, status) → ifEnded status →
            status = env.child.ending.status) (start R root reporter).2 env.answers :=
        Machine.along_of_forall_mem fun turn hturn _ => env.honest root hfork turn hturn
      have hconcluded := Machine.run_invariant_along
        (fun t => Concluded root env.child.ending t.frame) _
        (fun _ _ _ _ hs hturn hstep => concluded_step hs hturn hstep) hstart hhonest hrun
      rw [Option.map_eq_some_iff] at h
      obtain ⟨result, hresult, heq⟩ := h
      cases heq
      rw [Loop.result.eq_def] at hresult
      split at hresult
      · rename_i hreturned
        cases hresult
        rcases hconcluded.2 _ hreturned with hcode | hcode
        · exact Or.inl hcode
        · exact Or.inr ⟨by rw [hfork]; rfl, hcode⟩
      · split at hresult
        · cases hresult
          exact Or.inl rfl
        · cases hresult

/-- Zero is returned only for a target that was started and ended with status zero. -/
theorem run_zero {reporter reporter' : ρ} {env : TraceEnv}
    (h : run R reporter env = some (0, reporter')) :
    ∃ ending, env.targetEnding = some ending ∧ ending.status = 0 := by
  rcases run_code R h with hcode | ⟨hfork, hcode⟩
  · exact absurd hcode (by decide)
  · have hzero := (Ending.shellStatus_eq_zero_iff _ _).mp hcode.symm
    obtain ⟨hstarts, htarget⟩ := TracedChild.ending_of_status_zero hzero
    exact ⟨env.child.target, by rw [TraceEnv.targetEnding, hfork, hstarts]; rfl, htarget⟩

/-- The result fits the argument of `_exit`. -/
theorem run_range {reporter reporter' : ρ} {env : TraceEnv} {code : Int}
    (h : run R reporter env = some (code, reporter')) : 0 ≤ code ∧ code < 256 := by
  rcases run_code R h with hcode | ⟨-, hcode⟩
  · rw [hcode]
    decide
  · rw [hcode]
    exact ⟨Ending.shellStatus_nonneg _ _, Ending.shellStatus_lt _ _⟩

end ExeCell.Trace
