import Mathlib.Data.List.Nodup
import ExeCell.Analyze.Reported

/-!
# The evidence of the findings

`analyze::run` takes the findings apart again by their identifier and joins those about the
policy with the violations they come from. Every one of them is joined with the first
violation, so they carry their own evidence only if there is no other violation
(`ownEvidence_iff`).
-/

namespace ExeCell.Analyze

open Report

/-- The factor that the assessment has for a violation. -/
def violationFactor (violation : Policy.Violation) : Risk.Factor :=
  ⟨"policy_violation".toList, 0, violation.rule ++ ": ".toList ++ violation.resource⟩

/-- The finding of a violation, with the evidence of this violation. -/
def findingOf (violation : Policy.Violation) : Risk.Finding where
  id := "policy_violation".toList
  resource := violation.resource
  pid := violation.context.pid
  sequence := violation.context.sequence
  explanation := violation.rule ++ ": ".toList ++ violation.resource
  weight := 0

/-- The violations that the engine has recorded when the back end is through. -/
def recordedViolations (session : LexicalPath.Path) (args : List Text) (options : Options)
    (env : Env) : List Policy.Violation :=
  if args = [] ∨ session = [] then []
  else ((measure args options env).map fun measured => measured.policy.engine.violations).getD []

/-- The findings about the policy are those of the violations, one by one, and the other
findings are the observed ones. -/
structure OwnEvidence (violations : List Policy.Violation) (result : Result) : Prop where
  policy : result.policyFindings = violations.map findingOf
  observed : result.observedFindings = result.assessment.findings.drop violations.length
  others : ∀ finding ∈ result.observedFindings, finding.id ≠ "policy_violation".toList

/-- All violations have the resource, the pid and the number of the first one. -/
def SameEvidence (violations : List Policy.Violation) : Prop :=
  ∀ first ∈ violations.head?, ∀ violation ∈ violations,
    violation.resource = first.resource ∧ violation.context.pid = first.context.pid ∧
      violation.context.sequence = first.context.sequence

/-! ## The factors -/

section Factors

variable (engine : Risk.Engine) (c : Prop) [Decidable c] (name : Text) (weight : Int)
  (explanation : Text)

theorem factors_add_if :
    (if c then engine.add name weight explanation else engine).factors =
      engine.factors ++ if c then [⟨name, max 0 weight, explanation⟩] else [] := by
  split
  · rfl
  · rw [List.append_nil]

theorem factors_reject_if :
    (if c then engine.reject name explanation else engine).factors =
      engine.factors ++ if c then [⟨name, 0, explanation⟩] else [] := by
  split
  · rfl
  · rw [List.append_nil]

end Factors

theorem factors_violations (violations : List Policy.Violation) (engine : Risk.Engine) :
    (violations.foldl (fun engine violation =>
      Risk.Engine.reject engine "policy_violation".toList
        (violation.rule ++ ": ".toList ++ violation.resource)) engine).factors =
      engine.factors ++ violations.map violationFactor := by
  induction violations generalizing engine with
  | nil => rw [List.foldl_nil, List.map_nil, List.append_nil]
  | cons violation violations ih =>
    rw [List.foldl_cons, ih, List.map_cons, List.append_cons]
    rfl

/-- A factor as a finding, which has no evidence yet. -/
def findingOfFactor (factor : Risk.Factor) : Risk.Finding :=
  { id := factor.name, explanation := factor.explanation, weight := factor.weight }

/-- The factors of the violations come first, in their order. -/
theorem findings_assessment (summary : Summary) (violations : List Policy.Violation)
    (status : Int) (timedOut outputLimited : Bool) :
    ∃ others : List Risk.Factor,
      (assessment summary violations status timedOut outputLimited).findings =
        (violations.map violationFactor ++ others).map findingOfFactor ∧
      ∀ factor ∈ others, factor.name ≠ "policy_violation".toList := by
  have hif : ∀ (c : Prop) [Decidable c] (factor : Risk.Factor),
      factor.name ≠ "policy_violation".toList →
      ∀ f ∈ if c then [factor] else [], f.name ≠ "policy_violation".toList := by
    intro c _ factor hname f hf
    split at hf
    · rw [List.mem_singleton.mp hf]
      exact hname
    · cases hf
  have hfindings : ∀ engine : Risk.Engine,
      engine.assess.findings = engine.factors.map findingOfFactor := by
    intro engine
    rw [Risk.Engine.assess]
    rfl
  rw [assessment, hfindings, factors_reject_if, factors_reject_if, factors_reject_if, factors_add_if,
    factors_add_if, factors_add_if, factors_violations]
  simp only [List.nil_append, List.append_assoc]
  refine ⟨_, rfl, ?_⟩
  simp only [List.forall_mem_append]
  refine ⟨hif _ _ ?_, hif _ _ ?_, hif _ _ ?_, hif _ _ ?_, hif _ _ ?_, hif _ _ ?_⟩
  all_goals
    dsimp only
    decide

/-! ## The two lists -/

theorem filter_append_parts {α : Type} {p : α → Bool} {front rest : List α}
    (hfront : ∀ a ∈ front, p a = true) (hrest : ∀ a ∈ rest, p a = false) :
    (front ++ rest).filter p = front ∧ ((front ++ rest).filter fun a => !p a) = rest := by
  rw [List.filter_append, List.filter_append, List.filter_eq_self.mpr hfront,
    List.filter_eq_nil_iff.mpr fun a ha => by rw [hrest a ha]; exact Bool.false_ne_true,
    List.filter_eq_nil_iff.mpr fun a ha => by rw [hfront a ha]; exact Bool.false_ne_true,
    List.filter_eq_self.mpr fun a ha => by rw [hrest a ha]; rfl]
  exact ⟨List.append_nil _, rfl⟩

/-- What is made of the findings: every one about a violation gets the evidence of the first
one. -/
theorem conclude_findings (session : LexicalPath.Path) (measured : Measured) :
    let result := conclude session measured
    let violations := measured.policy.engine.violations
    result.policyFindings = violations.map (fun violation =>
        withEvidence violations (findingOfFactor (violationFactor violation))) ∧
      result.observedFindings = result.assessment.findings.drop violations.length ∧
      ∀ finding ∈ result.observedFindings, finding.id ≠ "policy_violation".toList := by
  obtain ⟨others, hfindings, hothers⟩ := findings_assessment measured.policy.downstream.summary
    measured.policy.engine.violations measured.exitStatus measured.timedOut measured.outputLimited
  have hfront : ∀ finding ∈ (measured.policy.engine.violations.map violationFactor).map
      findingOfFactor, finding.id = "policy_violation".toList := by
    intro finding hmem
    obtain ⟨factor, hfactor, rfl⟩ := List.mem_map.mp hmem
    obtain ⟨violation, _, rfl⟩ := List.mem_map.mp hfactor
    rfl
  have hback : ∀ finding ∈ others.map findingOfFactor,
      finding.id ≠ "policy_violation".toList := by
    intro finding hmem
    obtain ⟨factor, hfactor, rfl⟩ := List.mem_map.mp hmem
    exact hothers factor hfactor
  obtain ⟨hpolicy, hobserved⟩ := filter_append_parts
    (p := fun finding : Risk.Finding => decide (finding.id = "policy_violation".toList))
    (fun finding hmem => decide_eq_true (hfront finding hmem))
    (fun finding hmem => decide_eq_false (hback finding hmem))
  dsimp only [conclude]
  rw [hfindings, List.map_append, hpolicy, hobserved, List.map_map, List.map_map]
  refine ⟨rfl, ?_, hback⟩
  rw [List.drop_left' (by rw [List.length_map, List.length_map])]

theorem sameEvidence_nil : SameEvidence [] := by
  intro first hfirst
  cases hfirst

theorem withEvidence_iff (violations : List Policy.Violation) :
    violations.map (fun violation =>
        withEvidence violations (findingOfFactor (violationFactor violation))) =
      violations.map findingOf ↔ SameEvidence violations := by
  cases violations with
  | nil => exact iff_of_true rfl sameEvidence_nil
  | cons first rest =>
    rw [List.map_inj_left, SameEvidence]
    have hone : ∀ violation : Policy.Violation,
        withEvidence (first :: rest) (findingOfFactor (violationFactor violation)) =
            findingOf violation ↔
          violation.resource = first.resource ∧ violation.context.pid = first.context.pid ∧
            violation.context.sequence = first.context.sequence := by
      intro violation
      constructor
      · intro heq
        exact ⟨(congrArg Risk.Finding.resource heq).symm, (congrArg Risk.Finding.pid heq).symm,
          (congrArg Risk.Finding.sequence heq).symm⟩
      · rintro ⟨hresource, hpid, hsequence⟩
        have hfinding : findingOf violation =
            { findingOfFactor (violationFactor violation) with
              resource := violation.resource
              pid := violation.context.pid
              sequence := violation.context.sequence } := rfl
        rw [hfinding, hresource, hpid, hsequence, withEvidence]
    simp only [hone, List.head?_cons, Option.mem_def, Option.some.injEq, forall_eq']

/-! ## The numbers of the violations -/

/-- Every violation is about an event of its own, in the order of the events. -/
theorem violations_sublist (config : Policy.Config) (events : List Event) :
    List.Sublist ((Policy.Engine.after { config := config } events).violations.map (·.context))
      (events.map (·.context)) := by
  induction events using List.reverseRecOn with
  | nil => exact List.Sublist.refl _
  | append_singleton events event ih =>
    rw [Policy.Engine.after_append, List.map_append, List.map_singleton]
    rcases (Policy.Engine.after { config := config } events).evaluate_cases event with
      ⟨_, _, hsame⟩ | ⟨rule, named, _, _, hlog⟩
    · rw [hsame]
      exact ih.trans (List.sublist_append_left ..)
    · rw [hlog, List.map_append, List.map_singleton]
      exact ih.append (List.Sublist.refl _)

/-- The policy passes every event on. -/
theorem length_le_downstream (config : Policy.Config) (events : List Event) :
    events.length ≤ (Policy.frontAfter Policy.recorder config [] events).downstream.length := by
  have hkept : ∀ kept event, (Policy.recorder.report kept event).length = kept.length + 1 :=
    fun kept event => List.length_append ..
  induction events using List.reverseRecOn with
  | nil => exact Nat.zero_le _
  | append_singleton events event ih =>
    rw [Policy.frontAfter_append, List.length_append, List.length_singleton]
    rcases Policy.report_cases Policy.recorder
      (Policy.frontAfter Policy.recorder config [] events) event with
      ⟨_, _, heq⟩ | ⟨violation, _, _, _, heq⟩
    · rw [heq, hkept]
      omega
    · rw [heq, hkept, hkept]
      omega

/-- Fewer than `2 ^ 64` events have different numbers. -/
theorem nodup_sequence {events : List Event} (h : Trace.Numbered 0 events)
    (hlength : events.length < 2 ^ 64) : (events.map (·.context.sequence)).Nodup := by
  have hrange : events.map (·.context.sequence) = List.range events.length := by
    apply List.ext_getElem (by simp)
    intro n hn hn'
    rw [List.length_map] at hn
    rw [List.getElem_map, List.getElem_range, h n _ (List.getElem?_eq_getElem hn)]
    omega
  rw [hrange]
  exact List.nodup_range

theorem sameEvidence_of_length_le {violations : List Policy.Violation}
    (h : violations.length ≤ 1) : SameEvidence violations := by
  intro first hfirst violation hmem
  obtain rfl : violation = first := by
    match violations, h with
    | [only], _ =>
      rw [List.mem_singleton.mp hmem]
      exact Option.some.inj hfirst
  exact ⟨rfl, rfl, rfl⟩

theorem length_le_of_sameEvidence {violations : List Policy.Violation}
    (hnodup : (violations.map (·.context.sequence)).Nodup) (h : SameEvidence violations) :
    violations.length ≤ 1 := by
  match violations with
  | [] => exact Nat.zero_le 1
  | [_] => exact Nat.le_refl 1
  | first :: second :: rest =>
    have hsame := (h first rfl second (by simp)).2.2
    rw [List.map_cons, List.map_cons, List.nodup_cons, hsame] at hnodup
    exact absurd (List.mem_cons_self ..) hnodup.1

/-- In a run of fewer than `2 ^ 64` events no two violations have the same number. -/
theorem nodup_violations {args : List Text} {options : Options} {env : Env} {measured : Measured}
    (hargs : args ≠ []) (h : measure args options env = some measured)
    (hlength : (reportedEvents args options env).length < 2 ^ 64) :
    (measured.policy.engine.violations.map (·.context.sequence)).Nodup := by
  rcases measure_cases hargs h with ⟨_, _, hpolicy⟩ | ⟨code, policy, _, _, hrun, hevents, rfl⟩
  · rw [hpolicy]
    exact List.nodup_nil
  · obtain ⟨events, hnumbered, hpolicy, _⟩ := Trace.run_reported hrun
    have hfront : policy = Policy.frontAfter Policy.recorder options.policy [] events := hpolicy
    have hcount := length_le_downstream options.policy events
    rw [← hfront, ← hevents] at hcount
    have hsublist := (violations_sublist options.policy events).map EventContext.sequence
    rw [List.map_map, List.map_map] at hsublist
    rw [behind, hfront, Policy.frontAfter_engine]
    exact hsublist.nodup (nodup_sequence hnumbered (by omega))

/-- The findings of a run carry their own evidence exactly when its violations all have the
same; with fewer than `2 ^ 64` events, when there is at most one violation. -/
theorem ownEvidence_iff {session : LexicalPath.Path} {args : List Text} {options : Options}
    {env : Env} {result : Result} (h : runIn session args options env = some result) :
    (OwnEvidence (recordedViolations session args options env) result ↔
        SameEvidence (recordedViolations session args options env)) ∧
      ((reportedEvents args options env).length < 2 ^ 64 →
        (OwnEvidence (recordedViolations session args options env) result ↔
          (recordedViolations session args options env).length ≤ 1)) := by
  by_cases hearly : args = [] ∨ session = []
  · rw [runIn, if_pos hearly] at h
    cases h
    rw [recordedViolations, if_pos hearly]
    have hown : OwnEvidence [] { session := session } := ⟨rfl, rfl, List.forall_mem_nil _⟩
    exact ⟨iff_of_true hown sameEvidence_nil, fun _ => iff_of_true hown (Nat.zero_le 1)⟩
  · obtain ⟨hargs, hsession⟩ := not_or.mp hearly
    obtain ⟨measured, hmeasured, rfl⟩ := exists_measured hargs hsession h
    have hrecorded : recordedViolations session args options env =
        measured.policy.engine.violations := by
      rw [recordedViolations, if_neg hearly, hmeasured]
      rfl
    obtain ⟨hpolicy, hobserved, hothers⟩ := conclude_findings session measured
    rw [hrecorded]
    have hsame : OwnEvidence measured.policy.engine.violations (conclude session measured) ↔
        SameEvidence measured.policy.engine.violations := by
      rw [← withEvidence_iff, ← hpolicy]
      exact ⟨fun hown => hown.policy, fun hown => ⟨hown, hobserved, hothers⟩⟩
    refine ⟨hsame, fun hlength => hsame.trans ⟨?_, sameEvidence_of_length_le⟩⟩
    exact length_le_of_sameEvidence (nodup_violations hargs hmeasured hlength)

/-- A target of three processes. The `openat` of one child and the `close` of the other are in
progress when the root enters `exit_group`; both fail. -/
def failingTrace : Trace.TraceEnv where
  answers :=
    [.call 100 57 0, .forked 100 101, .signaled 101 Trace.sigStop, .call 100 57 101,
      .call 101 257 0, .call 100 57 0, .forked 100 102, .signaled 102 Trace.sigStop,
      .call 100 57 102, .call 102 3 0, .call 100 231 0,
      .call 101 257 (2 ^ 64 - 2), .call 102 3 (2 ^ 64 - 9), .exited 100 0]
  honest := Trace.honest_of_tells rfl

/-- An analysis that denies both calls. -/
def denyCalls : Options :=
  { policy := { deniedSyscalls := ["openat".toList, "close".toList] } }

def failingEnv : Env := { quietEnv with trace := failingTrace }

/-- The tracer returns, whatever is denied. -/
theorem runIn_failing (options : Options) (h : options.sandbox = false) : ∃ result,
    runIn "/tmp/s".toList ["/bin/true".toList] options failingEnv = some result := by
  -- the loop comes to its end with every reporter, since it does with the one that does nothing
  have hquiet : (Trace.run Trace.nullReporter () failingTrace).isSome = true := rfl
  have hruns : ∀ policy : Policy.Front Sinks,
      (Trace.run (Policy.reporter sinks) policy failingTrace).isSome = true := by
    intro policy
    have hrelay := @Trace.run_relay _ _ (Policy.reporter sinks) Trace.nullReporter (fun _ => ())
      (fun _ _ => rfl) policy failingTrace
    rw [hrelay, Option.isSome_map] at hquiet
    exact hquiet
  have hsome : (runIn "/tmp/s".toList ["/bin/true".toList] options failingEnv).isSome = true := by
    rw [runIn, if_neg (by simp), Option.isSome_map, measure]
    dsimp only
    rw [if_neg (by rw [h]; exact Bool.false_ne_true)]
    split
    · rw [Option.isSome_map]
      exact hruns _
    · rfl
  exact Option.isSome_iff_exists.mp hsome

theorem ownEvidence_iff_denied :
    ∃ result, runIn "/tmp/s".toList ["/bin/true".toList] denyCalls failingEnv = some result ∧
      (OwnEvidence (recordedViolations "/tmp/s".toList ["/bin/true".toList] denyCalls failingEnv)
          result ↔
        SameEvidence
          (recordedViolations "/tmp/s".toList ["/bin/true".toList] denyCalls failingEnv)) := by
  obtain ⟨result, hresult⟩ := runIn_failing denyCalls rfl
  exact ⟨result, hresult, (ownEvidence_iff hresult).1⟩

/-- The finding about the `close` of one child carries the evidence of the other's
`openat`. -/
theorem failing_misattributed :
    recordedViolations "/tmp/s".toList ["/bin/true".toList] denyCalls failingEnv =
        [⟨"denied-syscall".toList, "openat".toList, { pid := 101, sequence := 3 }⟩,
          ⟨"denied-syscall".toList, "close".toList, { pid := 102, sequence := 4 }⟩] ∧
      ∃ result, runIn "/tmp/s".toList ["/bin/true".toList] denyCalls failingEnv = some result ∧
        result.policyFindings.map (fun finding =>
            (finding.resource, finding.pid, finding.sequence, finding.explanation)) =
          [("openat".toList, 101, 3, "denied-syscall: openat".toList),
            ("openat".toList, 101, 3, "denied-syscall: close".toList)] := by
  refine ⟨by decide +kernel, ?_⟩
  obtain ⟨result, hresult⟩ := runIn_failing denyCalls rfl
  refine ⟨result, hresult, ?_⟩
  obtain rfl := Option.some.inj hresult
  decide +kernel

end ExeCell.Analyze
