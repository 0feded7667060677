import ExeCell.Analyze.ExitContract
import ExeCell.Policy.Transducer
import ExeCell.Report.Framing
import ExeCell.Trace.Recorder

/-!
# The events of an analysis

What `analyze::Reporter` is handed in a run, and what is left of it. A sandboxed target is
run without a reporter, and only the sandbox can end a run at a limit. So the records that
`append_event` is there for are never written: `events.json` holds what was reported and
nothing else (`eventsJson_eq`).
-/

namespace ExeCell.Analyze

open Report Report.JsonReporter

/-- The events that `analyze::Reporter` is handed, those of the policy among them: the ones
that a recorder in its place has kept. -/
def reportedEvents (args : List Text) (options : Options) (env : Env) : List Event :=
  if args = [] ∨ options.sandbox = true ∨ env.redirected options.format = false then []
  else
    match Trace.run (Policy.reporter Policy.recorder)
        { engine := { config := options.policy }, downstream := [] } env.trace with
    | none => []
    | some (_, policy) => policy.downstream

/-- The policy with another reporter behind it. -/
def behind {ρ ρ' : Type} (f : ρ → ρ') (s : Policy.Front ρ) : Policy.Front ρ' :=
  { engine := s.engine, denied := s.denied, downstream := f s.downstream }

theorem behind_report {ρ ρ' : Type} {R : Reporter ρ} {R' : Reporter ρ'} {f : ρ → ρ'}
    (hf : ∀ r event, f (R.report r event) = R'.report (f r) event) (s : Policy.Front ρ)
    (event : Event) :
    behind f ((Policy.reporter R).report s event) =
      (Policy.reporter R').report (behind f s) event := by
  unfold Policy.reporter behind
  dsimp only
  split
  · rw [hf]
  · split
    · rw [hf]
    · rw [hf, hf]

/-! ## What the reporters have received -/

/-- The reporters behind the policy after these events. -/
def received (events : List Event) : Sinks := events.foldl sinks.report {}

theorem received_append (events : List Event) (event : Event) :
    received (events ++ [event]) = sinks.report (received events) event := by
  rw [received, List.foldl_append]
  rfl

theorem received_open (events : List Event) : (received events).json.Open events := by
  induction events using List.reverseRecOn with
  | nil => exact ⟨rfl, rfl, rfl⟩
  | append_singleton events event ih =>
    rw [received_append]
    exact open_report ih event

/-- The array that the JSON reporter has written. -/
theorem received_output (events : List Event) :
    (received events).json.finish.output = frame events ++ [']'] := by
  obtain ⟨hfinished, _, houtput⟩ := received_open events
  rw [finish_output hfinished, houtput]

/-- A run under the tracer with the reporters is one with the recorder. -/
theorem run_received (options : Options) (env : Trace.TraceEnv) :
    Trace.run (Policy.reporter sinks)
        { engine := { config := options.policy }, downstream := {} } env =
      (Trace.run (Policy.reporter Policy.recorder)
        { engine := { config := options.policy }, downstream := [] } env).map
          fun result => (result.1, behind received result.2) := by
  have hreport : ∀ events event, received (Policy.recorder.report events event) =
      sinks.report (received events) event := received_append
  exact Trace.run_relay (behind_report hreport)
    { engine := { config := options.policy }, downstream := [] } env

/-! ## What a run leaves -/

section Measured

variable {session : LexicalPath.Path} {args : List Text} {options : Options} {env : Env}
  {measured : Measured} {result : Result}

/-- What is there to be judged: the run ended in the sandbox, or could not be begun, and
nothing was reported, or the tracer has passed on what the recorder would have kept. -/
theorem measure_cases (hargs : args ≠ []) (h : measure args options env = some measured) :
    ((options.sandbox = true ∨ env.redirected options.format = false) ∧
        reportedEvents args options env = [] ∧
        measured.policy =
          { engine := { config := options.policy }, downstream := received [] }) ∨
      ∃ code policy, options.sandbox = false ∧ env.redirected options.format = true ∧
        Trace.run (Policy.reporter Policy.recorder)
          { engine := { config := options.policy }, downstream := [] } env.trace =
            some (code, policy) ∧
        reportedEvents args options env = policy.downstream ∧
        measured = { exitStatus := code
                     attestation := "backend=ptrace; sandbox=false; policy=observer".toList
                     policy := behind received policy } := by
  rw [measure] at h
  dsimp only at h
  split at h
  · rename_i hsandbox
    obtain ⟨captured, _, rfl⟩ := Option.map_eq_some_iff.mp h
    refine Or.inl ⟨Or.inl hsandbox, ?_, rfl⟩
    rw [reportedEvents, if_pos (Or.inr (Or.inl hsandbox))]
  · rename_i hsandbox
    split at h
    · rename_i hredirected
      rw [run_received, Option.map_map] at h
      obtain ⟨⟨code, policy⟩, hrun, rfl⟩ := Option.map_eq_some_iff.mp h
      refine Or.inr ⟨code, policy, by simpa using hsandbox, hredirected, hrun, ?_, rfl⟩
      rw [reportedEvents, if_neg (by simp [hargs, hsandbox, hredirected]), hrun]
    · rename_i hredirected
      have hkept : env.redirected options.format = false := by simpa using hredirected
      cases h
      refine Or.inl ⟨Or.inr hkept, ?_, rfl⟩
      rw [reportedEvents, if_pos (Or.inr (Or.inr hkept))]

theorem measure_downstream (hargs : args ≠ []) (h : measure args options env = some measured) :
    measured.policy.downstream = received (reportedEvents args options env) := by
  rcases measure_cases hargs h with ⟨_, hnone, hpolicy⟩ | ⟨code, policy, _, _, _, hevents, rfl⟩
  · rw [hnone, hpolicy]
  · rw [hevents]
    rfl

/-- What has reported something was not ended at a limit. -/
theorem measure_limits (hargs : args ≠ []) (h : measure args options env = some measured)
    (hevents : reportedEvents args options env ≠ []) :
    measured.timedOut = false ∧ measured.outputLimited = false := by
  rcases measure_cases hargs h with ⟨_, hnone, _⟩ | ⟨code, policy, _, _, _, _, rfl⟩
  · exact absurd hnone hevents
  · exact ⟨rfl, rfl⟩

/-- The closing bracket alone is too short for a record. -/
theorem appendEvent_bracket (type : Text) : appendEvent [']'] type = [']'] := if_pos (by simp)

/-- The array of events is that of the reporter, whether a limit was met or not. -/
theorem eventsJson_eq (hargs : args ≠ []) (hsession : session ≠ [])
    (h : runIn session args options env = some result) :
    result.eventsJson = frame (reportedEvents args options env) ++ [']'] := by
  obtain ⟨measured, hmeasured, rfl⟩ := exists_measured hargs hsession h
  have houtput := received_output (reportedEvents args options env)
  rw [← measure_downstream hargs hmeasured] at houtput
  rw [conclude]
  dsimp only
  rw [houtput]
  by_cases hevents : reportedEvents args options env = []
  · rw [hevents]
    simp only [frame, List.nil_append, appendEvent_bracket, ite_self]
  · obtain ⟨htime, hlimit⟩ := measure_limits hargs hmeasured hevents
    simp only [htime, hlimit, Bool.false_eq_true, if_false]

/-! ## The violations among the events -/

/-- The violation that an event reports. -/
def violationOf (event : Event) : Option Policy.Violation :=
  match event.payload with
  | .policyViolation rule resource => some ⟨rule, resource, event.context⟩
  | _ => none

theorem violationOf_traced {event : Event} (h : Trace.isTraced event.payload = true) :
    violationOf event = none := by
  obtain ⟨payload, context⟩ := event
  cases payload <;> first | rfl | cases h

/-- The texts that a violation has for its rule. -/
def ruleNames : List Text :=
  ["denied-path".toList, "denied-endpoint".toList, "denied-syscall".toList, "process-limit".toList]

theorem rule_mem_ruleNames {engine : Policy.Engine} {payload : Payload} {rule resource : Text}
    (h : engine.broken payload = some (rule, resource)) : rule ∈ ruleNames := by
  unfold Policy.Engine.broken at h
  dsimp only at h
  split_ifs at h
  all_goals
    cases h
    simp [ruleNames]

/-- The engine keeps the violations that are reported, each under the name of a rule. -/
def Judged (s : Policy.Front (List Event)) : Prop :=
  s.engine.violations = s.downstream.filterMap violationOf ∧
    ∀ violation ∈ s.engine.violations, violation.rule ∈ ruleNames

theorem judged_report {s : Policy.Front (List Event)} (h : Judged s) {event : Event}
    (htraced : Trace.isTraced event.payload = true) :
    Judged ((Policy.reporter Policy.recorder).report s event) := by
  obtain ⟨hsame, hrules⟩ := h
  have hnone := violationOf_traced htraced
  have hlogged := s.engine.evaluate_cases event
  rcases Policy.report_cases Policy.recorder s event with
    ⟨_, hlog, heq⟩ | ⟨violation, hdeny, _, hlog, heq⟩
  · rw [heq, Judged]
    dsimp only [Policy.recorder]
    rw [hlog, List.filterMap_append, List.filterMap_cons_none hnone, hsame]
    simpa [← hsame] using hrules
  · rw [heq, Judged]
    dsimp only [Policy.recorder]
    have hreported : violationOf violation.event = some violation := rfl
    obtain ⟨_, hallow, _⟩ | ⟨rule, resource, hbroken, _, hlog'⟩ := hlogged
    · rw [hdeny] at hallow
      cases hallow
    · have hviolation := List.append_cancel_left (hlog.symm.trans hlog')
      rw [hlog, List.forall_mem_append, List.append_assoc, List.filterMap_append,
        List.singleton_append, List.filterMap_cons_none hnone,
        List.filterMap_cons_some hreported, hsame]
      refine ⟨rfl, hsame ▸ hrules, ?_⟩
      intro violation' hmem
      rw [hviolation] at hmem
      rw [List.mem_singleton.mp hmem]
      exact rule_mem_ruleNames hbroken

theorem measure_violations (hargs : args ≠ []) (h : measure args options env = some measured) :
    measured.policy.engine.violations =
        (reportedEvents args options env).filterMap violationOf ∧
      ∀ violation ∈ measured.policy.engine.violations, violation.rule ∈ ruleNames := by
  rcases measure_cases hargs h with ⟨_, hnone, hpolicy⟩ | ⟨code, policy, _, _, hrun, hevents, rfl⟩
  · rw [hnone, hpolicy]
    exact ⟨rfl, List.forall_mem_nil _⟩
  · have hjudged : Judged policy := by
      refine Trace.run_keeps (fun r event htraced hr => judged_report hr htraced) ?_ hrun
      have hstart : Judged { engine := { config := options.policy }, downstream := [] } :=
        ⟨rfl, List.forall_mem_nil _⟩
      split
      · exact hstart
      · exact judged_report hstart rfl
    rw [hevents]
    exact hjudged

/-- Something is reported exactly when the tracer gets hold of the target. -/
theorem reportedEvents_ne_nil_iff (hargs : args ≠ [])
    (h : measure args options env = some measured) :
    reportedEvents args options env ≠ [] ↔
      options.sandbox = false ∧ env.redirected options.format = true ∧
        env.trace.attached.isSome = true := by
  have hgrows : ∀ (s : Policy.Front (List Event)) event,
      ((Policy.reporter Policy.recorder).report s event).downstream ≠ [] := by
    intro s event
    rcases Policy.report_cases Policy.recorder s event with ⟨_, _, heq⟩ | ⟨_, _, _, _, heq⟩
    · rw [heq]
      simp [Policy.recorder]
    · rw [heq]
      simp [Policy.recorder]
  rcases measure_cases hargs h with
    ⟨hkept, hnone, _⟩ | ⟨code, policy, hsandbox, hredirected, hrun, hevents, _⟩
  · refine iff_of_false (fun hsome => hsome hnone) ?_
    rintro ⟨hsandbox, hredirected, _⟩
    rcases hkept with hkept | hkept
    · rw [hkept] at hsandbox
      cases hsandbox
    · rw [hkept] at hredirected
      cases hredirected
  · rw [hevents, and_iff_right hsandbox, and_iff_right hredirected]
    cases hroot : env.trace.attached with
    | none =>
      rw [Trace.run_attached, hroot] at hrun
      cases hrun
      exact iff_of_false (fun hsome => hsome rfl) Bool.false_ne_true
    | some root =>
      refine iff_of_true ?_ rfl
      refine Trace.run_keeps (I := fun s => s.downstream ≠ []) (fun r event _ _ => hgrows r event)
        ?_ hrun
      rw [hroot]
      exact hgrows _ _

end Measured

end ExeCell.Analyze
