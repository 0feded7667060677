import ExeCell.Trace.Launch
import ExeCell.Trace.Stream

/-!
# What is reported does not depend on the reporter

A reporter can ask the tracer to stop, and the tracer then kills what it resumes. What the
system answers is the input of the loop, so the same answers bring the same events and the
same result, whoever takes them (`run_relay`).
-/

namespace ExeCell.Trace

open Report

variable {ρ ρ' : Type} {R : Reporter ρ} {R' : Reporter ρ'}

/-- The root, if there is one and the tracer gets hold of it. -/
def TraceEnv.attached (env : TraceEnv) : Option Pid :=
  match env.fork, env.initialWait, env.setOptions with
  | some root, .ok _, .ok _ => some root
  | _, _, _ => none

/-- Nothing is reported without a root; with one the loop is run. -/
theorem run_attached (reporter : ρ) (env : TraceEnv) :
    run R reporter env =
      match env.attached with
      | none => some (exitFailure, reporter)
      | some root =>
        (Machine.run (step R) (start R root reporter).2 env.answers).bind fun result =>
          result.2.result.map fun code => (code, result.2.reporter) := by
  unfold run TraceEnv.attached
  cases env.fork with
  | none => rfl
  | some root =>
    cases env.initialWait with
    | error code => rfl
    | ok waited =>
      cases env.setOptions with
      | error code => rfl
      | ok options =>
        dsimp only
        cases Machine.run (step R) (start R root reporter).2 env.answers with
        | none => rfl
        | some result => rfl

/-- The loop but for the pending signal, with what is seen of its reporter. -/
def Loop.seen (f : ρ → ρ') (s : Loop ρ) : Loop ρ' :=
  { s with reporter := f s.reporter, pendingSignal := 0 }

section Seen

variable {f : ρ → ρ'} (hf : ∀ r event, f (R.report r event) = R'.report (f r) event)
include hf

theorem seen_emitAll {s : Loop ρ} {s' : Loop ρ'} (h : s.seen f = s'.seen id) (pid : Pid)
    (payloads : List Payload) :
    (emitAll R s pid payloads).2.seen f = (emitAll R' s' pid payloads).2.seen id := by
  induction payloads generalizing s s' with
  | nil => exact h
  | cons payload payloads ih =>
    apply ih
    simp only [Loop.seen, Loop.mk.injEq, emit, id_eq, hf] at h ⊢
    grind

theorem seen_apply {s : Loop ρ} {s' : Loop ρ'} (h : s.seen f = s'.seen id) (pid : Pid)
    (effect : Effect) :
    (effect.apply R s pid).2.seen f = (effect.apply R' s' pid).2.seen id := by
  have hemitted := seen_emitAll hf h pid effect.payloads
  simp only [Loop.seen, Loop.mk.injEq, Effect.apply, id_eq] at h hemitted ⊢
  grind

/-- An iteration goes on alike, but for the signal that it passes on. -/
theorem seen_step {s : Loop ρ} {s' : Loop ρ'} (h : s.seen f = s'.seen id) (answers : Answers) :
    (step R s answers).map (fun x => x.2.seen f) =
      (step R' s' answers).map fun x => x.2.seen id := by
  have hfields := h
  simp only [Loop.seen, Loop.mk.injEq, id_eq] at hfields
  obtain ⟨hroot, htasks, hsequence, _, hcurrent, hresume, hreporter, hreturned⟩ := hfields
  have hresumed : ∀ current current' returned, current = current' →
      ({ s.resumed with currentPid := current, returned := returned } : Loop ρ).seen f =
        ({ s'.resumed with currentPid := current', returned := returned } : Loop ρ').seen id := by
    intro current current' returned heq
    simp only [Loop.seen, Loop.resumed, Loop.mk.injEq, id_eq]
    exact ⟨hroot, htasks, hsequence, trivial, heq, trivial, hreporter, trivial⟩
  have hfails : s'.resumeFails answers = s.resumeFails answers := by
    rw [Loop.resumeFails, Loop.resumeFails, hresume]
  unfold step
  simp only [resumeStopped_eq, handleStop_eq, ← hreturned, ← htasks, hfails]
  split
  · rfl
  · generalize (if s.resumeFails answers = true then some exitFailure else s.returned) = returned
    split
    · exact congrArg some (hresumed _ _ _ hcurrent)
    · cases answers.wait with
      | error code => exact congrArg some (hresumed _ _ _ hcurrent)
      | ok told =>
        obtain ⟨pid, status⟩ := told
        dsimp only
        have heffect : effectOf s'.resumed.rootPid (s'.resumed.tasks.find (classifyStop pid status).pid)
            (classifyStop pid status) answers = effectOf s.resumed.rootPid
              (s.resumed.tasks.find (classifyStop pid status).pid) (classifyStop pid status)
              answers := by
          rw [Loop.resumed, Loop.resumed, hroot, htasks]
        rw [heffect]
        exact congrArg some (seen_apply hf (hresumed pid pid returned rfl) _ _)

/-- The reporter is a spectator: what another one makes of the same events is what comes
of them when it takes its place. -/
theorem run_relay (reporter : ρ) (env : TraceEnv) :
    run R' (f reporter) env = (run R reporter env).map fun result => (result.1, f result.2) := by
  rw [run_attached, run_attached]
  cases env.attached with
  | none => rfl
  | some root =>
    dsimp only
    have hstart : (start R root reporter).2.seen f = (start R' root (f reporter)).2.seen id := by
      simp only [start, Loop.seen, emit, id_eq, hf]
    have hruns := Machine.run_seen (Loop.seen f) (Loop.seen id)
      (fun _ _ answers h => seen_step hf h answers) hstart env.answers
    rcases Machine.map_eq_map hruns with ⟨hnone, hnone'⟩ | ⟨x, x', hx, hx', hseen⟩
    · rw [hnone, hnone']
      rfl
    · rw [hx, hx', Option.bind_some, Option.bind_some]
      simp only [Loop.seen, Loop.mk.injEq, id_eq] at hseen
      obtain ⟨_, htasks, _, _, _, _, hreporter, hreturned⟩ := hseen
      rw [Loop.result, Loop.result, htasks, hreturned, ← hreporter, Option.map_map]
      rfl

end Seen

/-! ## What the tracer reports -/

/-- An event of the tracer, which reports nothing about a policy. -/
def isTraced (payload : Payload) : Bool := payload.isLifecycle || payload.isDecoded

theorem isTraced_effectOf {root : Pid} {entry : Option Task} {stop : Stop} {answers : Answers} :
    ∀ payload ∈ (effectOf root entry stop answers).payloads, isTraced payload = true := by
  obtain hnone | ⟨_, heffect⟩ | ⟨child, task, _, hone⟩ | ⟨decoded, hmade, hone⟩ :=
    @payloads_effectOf root entry stop answers
  · rw [hnone]
    exact List.forall_mem_nil _
  · rw [heffect, endEffect]
    split
    · simp [isTraced, Payload.isLifecycle]
    · simp [isTraced, Payload.isLifecycle]
  · rw [hone]
    simp [isTraced, Payload.isLifecycle]
  · rw [hone]
    simp [isTraced, hmade]

/-- The events of a run: they are numbered from zero on, the first one is that the tracing of
the root has started, and the reporter has become what they make of it. -/
theorem run_reported {reporter reporter' : ρ} {env : TraceEnv} {code : Int}
    (h : run R reporter env = some (code, reporter')) :
    ∃ events, Numbered 0 events ∧ reporter' = events.foldl R.report reporter ∧
      events.head? = env.attached.map startedEvent := by
  rw [run_attached] at h
  cases hroot : env.attached with
  | none =>
    rw [hroot] at h
    cases h
    exact ⟨[], fun n event hevent => (nomatch hevent), rfl, rfl⟩
  | some root =>
    rw [hroot] at h
    obtain ⟨⟨outputs, s⟩, hrun, hresult⟩ := Option.bind_eq_some_iff.mp h
    obtain ⟨_, _, heq⟩ := Option.map_eq_some_iff.mp hresult
    cases heq
    have hlog : ∀ (inputs : List Answers) (u : Loop ρ) (outputs : List (List Action)),
        Machine.run (step R) u inputs = some (outputs, s) →
        s.reporter = (reported outputs.flatten).foldl R.report u.reporter := by
      intro inputs
      induction inputs with
      | nil =>
        intro u outputs hrun
        cases hrun
        rfl
      | cons answers inputs ih =>
        intro u outputs hrun
        obtain ⟨actions, u', later, hstep, hrest, rfl⟩ := Machine.run_cons.mp hrun
        rw [List.flatten_cons, reported_append, List.foldl_append, ← reporter_step hstep,
          ih u' later hrest]
    have hstream : stream R root reporter outputs =
        startedEvent root :: reported outputs.flatten := by
      rw [stream, reported_append, reported_start]
      rfl
    refine ⟨stream R root reporter outputs, numbered_stream hrun, ?_, ?_⟩
    · rw [hstream, List.foldl_cons, hlog _ _ _ hrun]
      rfl
    · rw [hstream]
      rfl

/-- What every event of the tracer keeps, and the first one brings about if there is a root,
holds of the reporter after every run. -/
theorem run_keeps {I : ρ → Prop} {reporter reporter' : ρ} {env : TraceEnv} {code : Int}
    (hI : ∀ r event, isTraced event.payload = true → I r → I (R.report r event))
    (h0 : match env.attached with
      | none => I reporter
      | some root => I (R.report reporter ⟨.traceStarted root, { pid := root, sequence := 0 }⟩))
    (h : run R reporter env = some (code, reporter')) : I reporter' := by
  have hfold : ∀ {events : List Event} {r : ρ}, (∀ event ∈ events, isTraced event.payload = true) →
      I r → I (events.foldl R.report r) := by
    intro events r hevents hr
    induction events generalizing r with
    | nil => exact hr
    | cons event events ih =>
      obtain ⟨hfirst, hlater⟩ := List.forall_mem_cons.mp hevents
      exact ih hlater (hI r event hfirst hr)
  have hstep : ∀ s answers actions t, I s.reporter → step R s answers = some (actions, t) →
      I t.reporter := by
    intro s answers actions t hs hstep
    obtain ⟨_, _, ⟨_, _, rfl⟩ | ⟨pid, status, _, _, _, rfl⟩⟩ := step_cases hstep
    · exact hs
    · rw [apply_reporter]
      exact hfold (fun event hmem => isTraced_effectOf _ (payload_of_mem_eventsFrom hmem)) hs
  rw [run_attached] at h
  cases hroot : env.attached with
  | none =>
    rw [hroot] at h h0
    cases h
    exact h0
  | some root =>
    rw [hroot] at h h0
    obtain ⟨⟨outputs, s⟩, hrun, hresult⟩ := Option.bind_eq_some_iff.mp h
    obtain ⟨_, _, heq⟩ := Option.map_eq_some_iff.mp hresult
    cases heq
    exact Machine.run_invariant (fun s => I s.reporter) hstep h0 hrun

end ExeCell.Trace
