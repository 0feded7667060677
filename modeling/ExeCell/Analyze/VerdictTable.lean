import ExeCell.Analyze.Findings
import ExeCell.Policy.Strictness
import ExeCell.Risk.Calls

/-!
# The table of verdicts

What `analyze` makes of a run. The verdict can be read off what its report holds, the events,
the exit status and the two limits (`verdict_table`), and a policy that subsumes another never
comes to a milder one on the same run (`verdict_mono`).
-/

namespace ExeCell.Analyze

open Report
open Risk (Call assessed totalWeight)
open Policy (Config frontAfter)

/-! ## The counters of the summary -/

/-- The events that `Summary` counts as attempts to reach the network. -/
def attempts : Payload → Bool
  | .networkConnected _ _ | .networkBound _ _ | .networkAccepted _ _ => true
  | _ => false

/-- The events that `Summary` counts as failures. -/
def fails : Payload → Bool
  | .syscallFailed _ _ _ => true
  | _ => false

/-- The counter of these events is not at zero: there are some, and not a multiple of
`2 ^ 64`. -/
def Counted (kind : Payload → Bool) (events : List Event) : Prop :=
  events.countP (fun event => kind event.payload) % 2 ^ 64 ≠ 0

instance (kind : Payload → Bool) (events : List Event) : Decidable (Counted kind events) :=
  inferInstanceAs (Decidable (_ ≠ _))

/-- The summary of the events. -/
def summaryOf (events : List Event) : Summary := events.foldl Summary.report {}

theorem summaryOf_append (events : List Event) (event : Event) :
    summaryOf (events ++ [event]) = (summaryOf events).report event := List.foldl_append

/-- A member of the summary that goes up by one for each event of the kind. -/
theorem counter_eq {counter : Summary → Nat} {kind : Payload → Bool} (hstart : counter {} = 0)
    (hstep : ∀ summary event, counter (summary.report event) =
      if kind event.payload then increment (counter summary) else counter summary)
    (events : List Event) :
    counter (summaryOf events) = events.countP (fun event => kind event.payload) % 2 ^ 64 := by
  induction events using List.reverseRecOn with
  | nil => exact hstart
  | append_singleton events event ih =>
    rw [summaryOf_append, hstep, List.countP_append, List.countP_singleton, ih]
    split
    · rw [increment, Nat.mod_add_mod]
    · rfl

theorem networkAttempts_summaryOf (events : List Event) :
    (summaryOf events).networkAttempts =
      events.countP (fun event => attempts event.payload) % 2 ^ 64 := by
  apply counter_eq rfl
  intro summary event
  obtain ⟨payload, context⟩ := event
  cases payload <;> rfl

theorem processesSpawned_summaryOf (events : List Event) :
    (summaryOf events).processesSpawned =
      events.countP (fun event => Policy.processSpawn event.payload) % 2 ^ 64 := by
  apply counter_eq rfl
  intro summary event
  obtain ⟨payload, context⟩ := event
  cases payload <;> rfl

theorem failures_summaryOf (events : List Event) :
    (summaryOf events).failures =
      events.countP (fun event => fails event.payload) % 2 ^ 64 := by
  apply counter_eq rfl
  intro summary event
  obtain ⟨payload, context⟩ := event
  cases payload <;> rfl

theorem summary_received (events : List Event) : (received events).summary = summaryOf events := by
  induction events using List.reverseRecOn with
  | nil => rfl
  | append_singleton events event ih =>
    rw [received_append, summaryOf_append, ← ih]
    rfl

/-! ## The assessment as calls -/

section Assessment

variable {summary : Summary} {violations : List Policy.Violation} {status : Int}
  {timedOut outputLimited : Bool}

/-- A call that is made under a condition. -/
def callIf (c : Prop) [Decidable c] (call : Call) : List Call := if c then [call] else []

theorem foldl_callIf (c : Prop) [Decidable c] (call : Call) (engine : Risk.Engine) :
    (callIf c call).foldl Risk.Engine.call engine = if c then engine.call call else engine := by
  rw [callIf]
  split <;> rfl

/-- The calls of the risk engine in `assessment`. -/
def assessmentCalls (summary : Summary) (violations : List Policy.Violation) (status : Int)
    (timedOut outputLimited : Bool) : List Call :=
  violations.map (fun violation =>
      .reject "policy_violation".toList (violation.rule ++ ": ".toList ++ violation.resource)) ++
    callIf (summary.networkAttempts ≠ 0)
      (.add "network_activity".toList 20 "target attempted network activity".toList) ++
    callIf (summary.processesSpawned ≠ 0)
      (.add "child_process".toList 5 "target spawned a child process".toList) ++
    callIf (summary.failures ≠ 0)
      (.add "failed_syscall".toList 10 "target generated failed system calls".toList) ++
    callIf (timedOut = true) (.reject "timeout".toList "analysis wall-clock limit exceeded".toList) ++
    callIf (outputLimited = true)
      (.reject "output_limit".toList "analysis output limit exceeded".toList) ++
    callIf (status ≠ 0) (.reject "target_failure".toList
      ("target exited with status ".toList ++ Text.ofInt status))

theorem assessment_eq (summary : Summary) (violations : List Policy.Violation) (status : Int)
    (timedOut outputLimited : Bool) :
    assessment summary violations status timedOut outputLimited =
      assessed (assessmentCalls summary violations status timedOut outputLimited) := by
  rw [assessed, assessmentCalls]
  simp only [List.foldl_append, foldl_callIf, List.foldl_map]
  rfl

/-- Something is wrong with the run by itself. -/
def Fault (status : Int) (timedOut outputLimited : Bool) : Prop :=
  status ≠ 0 ∨ timedOut = true ∨ outputLimited = true

instance : Decidable (Fault status timedOut outputLimited) :=
  inferInstanceAs (Decidable (_ ∨ _ ∨ _))

theorem any_callIf (c : Prop) [Decidable c] (call : Call) :
    (callIf c call).any Call.isReject = (decide c && call.isReject) := by
  rw [callIf]
  split
  · rename_i hc
    simp [hc]
  · rename_i hc
    simp [hc]

theorem rejects_iff :
    (assessmentCalls summary violations status timedOut outputLimited).any Call.isReject = true ↔
      violations ≠ [] ∨ Fault status timedOut outputLimited := by
  have hviolations : (violations.map fun violation => Call.reject "policy_violation".toList
      (violation.rule ++ ": ".toList ++ violation.resource)).any Call.isReject =
        decide (violations ≠ []) := by
    cases violations with
    | nil => rfl
    | cons violation violations => rfl
  rw [assessmentCalls]
  simp only [List.any_append, any_callIf, hviolations, Call.isReject, Fault]
  simp only [Bool.and_false, Bool.and_true, Bool.or_false, Bool.or_eq_true, decide_eq_true_eq]
  tauto

theorem totalWeight_callIf (c : Prop) [Decidable c] (call : Call) :
    totalWeight (callIf c call) = if c then call.weight else 0 := by
  rw [callIf]
  split <;> rfl

/-- The sum that the summary alone decides about. -/
def weightOf (summary : Summary) : Nat :=
  (if summary.networkAttempts ≠ 0 then 20 else 0) +
    (if summary.processesSpawned ≠ 0 then 5 else 0) + (if summary.failures ≠ 0 then 10 else 0)

theorem totalWeight_assessmentCalls :
    totalWeight (assessmentCalls summary violations status timedOut outputLimited) =
      weightOf summary := by
  have hviolations : totalWeight (violations.map fun violation =>
      Call.reject "policy_violation".toList
        (violation.rule ++ ": ".toList ++ violation.resource)) = 0 := by
    induction violations with
    | nil => rfl
    | cons violation violations ih =>
      rw [List.map_cons, totalWeight, List.map_cons, List.sum_cons]
      exact (Nat.zero_add _).trans ih
  have hnetwork : (Call.add "network_activity".toList 20
      "target attempted network activity".toList).weight = 20 := rfl
  have hspawned : (Call.add "child_process".toList 5
      "target spawned a child process".toList).weight = 5 := rfl
  have hfailed : (Call.add "failed_syscall".toList 10
      "target generated failed system calls".toList).weight = 10 := rfl
  rw [assessmentCalls]
  simp only [Risk.totalWeight_append, totalWeight_callIf, hviolations, hnetwork, hspawned, hfailed]
  simp only [Call.weight, ite_self, Nat.add_zero, Nat.zero_add]
  rfl

theorem weightOf_le (summary : Summary) : weightOf summary ≤ 35 := by
  rw [weightOf]
  split_ifs <;> omega

theorem score_assessment :
    (assessment summary violations status timedOut outputLimited).score = weightOf summary := by
  have hle := weightOf_le summary
  rw [assessment_eq, Risk.score_of_lt]
  · rw [totalWeight_assessmentCalls]
    omega
  · rw [totalWeight_assessmentCalls]
    omega

theorem judged_assessment :
    let assessment := assessment summary violations status timedOut outputLimited
    (assessment.level, assessment.action) =
      if violations ≠ [] ∨ Fault status timedOut outputLimited then (.critical, .reject)
      else Risk.thresholds (weightOf summary) := by
  intro assessment
  have hscore : assessment.score = weightOf summary := score_assessment
  rw [show assessment = _ from assessment_eq ..] at hscore ⊢
  have hrejects : (assessmentCalls summary violations status timedOut outputLimited).any
      Call.isReject = true ↔ violations ≠ [] ∨ Fault status timedOut outputLimited := rejects_iff
  rw [Risk.level_assessed, Risk.action_assessed, hscore, if_congr hrejects rfl rfl,
    if_congr hrejects rfl rfl]
  split <;> rfl

end Assessment

/-! ## The verdict of a run -/

/-- A violation is among the events. -/
def Denied (events : List Event) : Prop := ∃ event ∈ events, violationOf event ≠ none

instance (events : List Event) : Decidable (Denied events) :=
  inferInstanceAs (Decidable (∃ event ∈ events, _))

theorem filterMap_ne_nil_iff {events : List Event} :
    events.filterMap violationOf ≠ [] ↔ Denied events := by
  rw [ne_eq, List.filterMap_eq_nil_iff, Denied]
  push Not
  rfl

/-- The score of the events: what they have been counted for. -/
def scoreFor (events : List Event) : Nat :=
  (if Counted attempts events then 20 else 0) +
    (if Counted Policy.processSpawn events then 5 else 0) + (if Counted fails events then 10 else 0)

theorem weightOf_summaryOf (events : List Event) : weightOf (summaryOf events) = scoreFor events := by
  rw [weightOf, networkAttempts_summaryOf, processesSpawned_summaryOf, failures_summaryOf]
  rfl

/-- The network alone is not enough for a review, and nothing else is without it. -/
theorem scoreFor_ge_iff {events : List Event} :
    25 ≤ scoreFor events ↔
      Counted attempts events ∧ (Counted Policy.processSpawn events ∨ Counted fails events) := by
  rw [scoreFor]
  by_cases hnetwork : Counted attempts events
  · by_cases hspawned : Counted Policy.processSpawn events
    · simp [hnetwork, hspawned]
    · by_cases hfailed : Counted fails events
      · simp [hnetwork, hspawned, hfailed]
      · simp [hnetwork, hspawned, hfailed]
  · refine iff_of_false ?_ fun h => hnetwork h.1
    rw [if_neg hnetwork]
    split_ifs <;> omega

/-- The assessment is what its report makes of it: of the events it lists, the status and the
two limits. -/
structure Explained (result : Result) (events : List Event) : Prop where
  listed : result.eventsJson = JsonReporter.frame events ++ [']']
  score : result.assessment.score = scoreFor events
  reject : result.assessment.action = .reject ↔
    Denied events ∨ Fault result.exitStatus result.timedOut result.outputLimited
  audit : result.assessment.action = .audit ↔
    ¬ (Denied events ∨ Fault result.exitStatus result.timedOut result.outputLimited) ∧
      Counted attempts events ∧ (Counted Policy.processSpawn events ∨ Counted fails events)
  level : result.assessment.level =
    match result.assessment.action with
    | .reject => .critical
    | .audit => .medium
    | .allow => if scoreFor events = 0 then .none else .low

theorem thresholds_scoreFor (events : List Event) :
    Risk.thresholds (scoreFor events) =
      if 25 ≤ scoreFor events then (.medium, .audit)
      else (if scoreFor events = 0 then .none else .low, .allow) := by
  have hle := weightOf_le (summaryOf events)
  rw [weightOf_summaryOf] at hle
  split
  · exact Risk.thresholds_medium (by omega) (by omega)
  · rw [Risk.thresholds, if_neg (by omega), if_neg (by omega), if_neg (by omega)]
    by_cases hzero : scoreFor events = 0
    · rw [hzero]
      rfl
    · rw [if_pos (by omega), if_neg hzero]

section Runs

variable {session : LexicalPath.Path} {args : List Text} {options : Options} {env : Env}
  {measured : Measured} {result result' : Result}

theorem judged_conclude (hargs : args ≠ []) (h : measure args options env = some measured)
    (session : LexicalPath.Path) :
    let result := conclude session measured
    let events := reportedEvents args options env
    result.assessment.score = scoreFor events ∧
      (result.assessment.level, result.assessment.action) =
        if Denied events ∨ Fault result.exitStatus result.timedOut result.outputLimited
        then (.critical, .reject) else Risk.thresholds (scoreFor events) := by
  intro result events
  have hviolations : measured.policy.engine.violations = events.filterMap violationOf :=
    (measure_violations hargs h).1
  have hsummary : measured.policy.downstream.summary = summaryOf events := by
    rw [measure_downstream hargs h, summary_received]
  have hassessment : result.assessment = assessment (summaryOf events)
      (events.filterMap violationOf) result.exitStatus result.timedOut result.outputLimited := by
    rw [← hviolations, ← hsummary]
    rfl
  rw [hassessment, score_assessment, weightOf_summaryOf]
  refine ⟨rfl, ?_⟩
  rw [judged_assessment, weightOf_summaryOf]
  exact if_congr (or_congr_left filterMap_ne_nil_iff) rfl rfl

/-- For every analysis of a target: the verdict and its level can be read off the report. It is
a rejection exactly when the run failed or met a limit, or a violation is among its events, and
a review exactly when, without that, the target has tried the network and either spawned a
process or failed in a system call. -/
theorem verdict_table (hargs : args ≠ []) (hsession : session ≠ [])
    (h : runIn session args options env = some result) :
    Explained result (reportedEvents args options env) := by
  have hevents := eventsJson_eq hargs hsession h
  obtain ⟨measured, hmeasured, rfl⟩ := exists_measured hargs hsession h
  obtain ⟨hscore, hjudged⟩ := judged_conclude hargs hmeasured session
  rw [thresholds_scoreFor, if_congr scoreFor_ge_iff rfl rfl] at hjudged
  have hlevel := congrArg Prod.fst hjudged
  have haction := congrArg Prod.snd hjudged
  dsimp only at hlevel haction
  by_cases hrejects : Denied (reportedEvents args options env) ∨
      Fault (conclude session measured).exitStatus (conclude session measured).timedOut
        (conclude session measured).outputLimited
  · rw [if_pos hrejects] at hlevel haction
    refine ⟨hevents, hscore, iff_of_true haction hrejects, ?_, ?_⟩
    · rw [haction]
      exact iff_of_false Risk.Action.noConfusion fun h => h.1 hrejects
    · rw [haction]
      exact hlevel
  · rw [if_neg hrejects] at hlevel haction
    split at haction
    · rename_i hcounted
      rw [if_pos hcounted] at hlevel
      refine ⟨hevents, hscore, ?_, iff_of_true haction ⟨hrejects, hcounted⟩, ?_⟩
      · rw [haction]
        exact iff_of_false Risk.Action.noConfusion hrejects
      · rw [haction]
        exact hlevel
    · rename_i hcounted
      rw [if_neg hcounted] at hlevel
      refine ⟨hevents, hscore, ?_, ?_, ?_⟩
      · rw [haction]
        exact iff_of_false Risk.Action.noConfusion hrejects
      · rw [haction]
        exact iff_of_false Risk.Action.noConfusion fun h => hcounted h.2
      · rw [haction]
        exact hlevel

theorem verdict_table_denied :
    ∃ result, runIn "/tmp/s".toList ["/bin/true".toList] denyCalls failingEnv = some result ∧
      Explained result (reportedEvents ["/bin/true".toList] denyCalls failingEnv) := by
  obtain ⟨result, hresult⟩ := runIn_failing denyCalls rfl
  exact ⟨result, hresult, verdict_table (List.cons_ne_nil _ _) (by decide) hresult⟩

/-! ## Stricter policies -/

/-- A violation is none of the events that the summary counts. -/
theorem report_violation (summary : Summary) (violation : Policy.Violation) :
    summary.report violation.event = summary := rfl

theorem summary_frontAfter (config : Config) (events : List Event) :
    (frontAfter sinks config {} events).downstream.summary = summaryOf events := by
  induction events using List.reverseRecOn with
  | nil => rfl
  | append_singleton events event ih =>
    rw [Policy.frontAfter_append, summaryOf_append, ← ih]
    rcases Policy.report_cases sinks (frontAfter sinks config {} events) event with
      ⟨_, _, heq⟩ | ⟨violation, _, _, _, heq⟩
    · rw [heq]
      rfl
    · rw [heq]
      exact report_violation _ violation

/-- Whatever the policy, the same is measured of a run but for the state of the policy, which
has been in front of the same events. -/
theorem measure_policy (h : measure args options env = some measured) :
    ∃ events, ∀ config, measure args { options with policy := config } env =
      some { measured with policy := frontAfter sinks config {} events } := by
  rw [measure] at h
  dsimp only at h
  split at h
  · rename_i hsandbox
    obtain ⟨captured, hcaptured, rfl⟩ := Option.map_eq_some_iff.mp h
    refine ⟨[], fun config => ?_⟩
    rw [measure]
    dsimp only
    rw [if_pos hsandbox, hcaptured]
    rfl
  · rename_i hsandbox
    split at h
    · rename_i hredirected
      obtain ⟨⟨code, policy⟩, hrun, rfl⟩ := Option.map_eq_some_iff.mp h
      obtain ⟨events, hrecorded, _⟩ := Policy.exists_recorded hrun
      refine ⟨events, fun config => ?_⟩
      rw [measure]
      dsimp only
      rw [if_neg hsandbox, if_pos hredirected, Policy.run_foldl _ _ hrecorded]
      rfl
    · rename_i hredirected
      cases h
      refine ⟨[], fun config => ?_⟩
      rw [measure]
      dsimp only
      rw [if_neg hsandbox, if_neg hredirected]
      rfl

theorem assessment_conclude (session : LexicalPath.Path) (measured : Measured) (config : Config)
    (events : List Event) :
    (conclude session
        { measured with policy := frontAfter sinks config {} events }).assessment =
      assessment (summaryOf events) (config.violations events) measured.exitStatus
        measured.timedOut measured.outputLimited := by
  rw [Config.violations, ← Policy.frontAfter_engine sinks config {} events,
    ← summary_frontAfter config events]
  rfl

theorem notLower_refl (assessment : Risk.Assessment) : Risk.NotLower assessment assessment :=
  ⟨le_refl _, le_refl _, le_refl _⟩

/-- Violations where there were none before lower nothing. -/
theorem notLower_assessment {summary : Summary} {violations violations' : List Policy.Violation}
    {status : Int} {timedOut outputLimited : Bool} (h : violations ≠ [] → violations' ≠ []) :
    Risk.NotLower (assessment summary violations status timedOut outputLimited)
      (assessment summary violations' status timedOut outputLimited) := by
  have hjudged : ∀ violations : List Policy.Violation,
      ((assessment summary violations status timedOut outputLimited).level,
        (assessment summary violations status timedOut outputLimited).action) =
        if violations ≠ [] ∨ Fault status timedOut outputLimited then (.critical, .reject)
        else Risk.thresholds (weightOf summary) := fun _ => judged_assessment
  have hlow := hjudged violations
  have hhigh := hjudged violations'
  refine ⟨by rw [score_assessment, score_assessment], ?_, ?_⟩
  · rw [show (assessment summary violations' ..).level = _ from congrArg Prod.fst hhigh]
    split
    · exact Risk.Level.rank_le_critical _
    · rename_i hnone
      rw [if_neg (fun hsome => hnone (hsome.imp_left h))] at hlow
      exact le_of_eq (congrArg (Risk.Level.rank ∘ Prod.fst) hlow)
  · rw [show (assessment summary violations' ..).action = _ from congrArg Prod.snd hhigh]
    split
    · exact Risk.Action.rank_le_reject _
    · rename_i hnone
      rw [if_neg (fun hsome => hnone (hsome.imp_left h))] at hlow
      exact le_of_eq (congrArg (Risk.Action.rank ∘ Prod.snd) hlow)

/-- For every run: under a policy that subsumes another, neither the score nor the level nor the
action of the assessment is lower than under the other. -/
theorem verdict_mono {strict : Config} (hsub : strict.Subsumes options.policy)
    (h : runIn session args options env = some result)
    (h' : runIn session args { options with policy := strict } env = some result') :
    Risk.NotLower result.assessment result'.assessment := by
  by_cases hearly : args = [] ∨ session = []
  · rw [runIn, if_pos hearly] at h h'
    rw [← Option.some.inj h, ← Option.some.inj h']
    exact notLower_refl _
  · obtain ⟨hargs, hsession⟩ := not_or.mp hearly
    obtain ⟨measured, hmeasured, rfl⟩ := exists_measured hargs hsession h
    obtain ⟨measured', hmeasured', rfl⟩ := exists_measured hargs hsession h'
    obtain ⟨events, hpolicy⟩ := measure_policy hmeasured
    obtain rfl := Option.some.inj ((hpolicy strict).symm.trans hmeasured')
    rw [Option.some.inj (hmeasured.symm.trans (hpolicy options.policy)), assessment_conclude,
      assessment_conclude]
    exact notLower_assessment (hsub.streams events)

/-- Besides a call of the target, a second one is denied, and more than three processes. -/
theorem verdict_mono_failing :
    let lax : Options := { policy := { deniedSyscalls := ["openat".toList] } }
    let strict : Config :=
      { deniedSyscalls := ["close".toList, "openat".toList], maxProcesses := 3 }
    ∃ result result', runIn "/tmp/s".toList ["/bin/true".toList] lax failingEnv = some result ∧
      runIn "/tmp/s".toList ["/bin/true".toList] { lax with policy := strict } failingEnv =
        some result' ∧
      Risk.NotLower result.assessment result'.assessment := by
  intro lax strict
  have hsub : strict.Subsumes lax.policy :=
    { total := fun h => absurd h List.not_mem_nil
      mute := fun h => h.elim (fun h => absurd h List.not_mem_nil) fun h => absurd h (by decide)
      names := Or.inr (List.forall_mem_nil _)
      anyName := fun h => absurd h (by decide)
      syscalls := Or.inr (by decide)
      processes := Or.inr (Or.inl rfl) }
  obtain ⟨result, hresult⟩ := runIn_failing lax rfl
  obtain ⟨result', hresult'⟩ := runIn_failing { lax with policy := strict } rfl
  exact ⟨result, result', hresult, hresult', verdict_mono hsub hresult hresult'⟩

end Runs

end ExeCell.Analyze
