import Mathlib.Data.List.Induction
import ExeCell.Policy.Engine
import ExeCell.Trace.Recorder

/-!
# The policy reporter as a transducer

`policy::Reporter` passes every event on and puts a `PolicyViolation` directly behind each
one that the engine denies. `Annotates` says which streams arise in this way, and
`transduces` that the reporter produces them, whatever is behind it.

The engine counts the processes in a `std::size_t`, so what it compares with the limit is
the number of `ProcessSpawned` events modulo `2 ^ 64`.
-/

namespace ExeCell.Policy

open Report

/-- The number of `ProcessSpawned` events. -/
def spawned (events : List Event) : Nat := events.countP fun event => processSpawn event.payload

/-- A rule other than the limit on processes matches the event. -/
def Config.Matches (config : Config) (payload : Payload) : Prop :=
  (∃ denied ∈ config.deniedPaths, denied <+: resource payload) ∨
    (resource payload ≠ [] ∧ ∃ denied ∈ config.deniedEndpoints, denied <+: resource payload) ∨
    syscall payload ∈ config.deniedSyscalls

/-- The event is one process more than the limit allows. -/
def Engine.OverLimit (engine : Engine) (payload : Payload) : Prop :=
  processSpawn payload = true ∧ engine.config.maxProcesses ≠ 0 ∧
    engine.config.maxProcesses < engine.processCount

namespace Engine

/-! ## One event -/

theorem broken_isSome_iff (engine : Engine) (payload : Payload) :
    (engine.broken payload).isSome ↔
      engine.config.Matches payload ∨ engine.OverLimit payload := by
  rw [broken, Config.Matches, OverLimit]
  split
  · rename_i hpath
    have hmatch : ∃ denied ∈ engine.config.deniedPaths, denied <+: resource payload := by
      simpa using hpath
    simp [hmatch]
  · rename_i hpath
    have hpath' : ¬ ∃ denied ∈ engine.config.deniedPaths, denied <+: resource payload := by
      simpa using hpath
    split
    · rename_i hendpoint
      simp only [List.any_eq_true, Bool.and_eq_true, Bool.not_eq_true', List.isEmpty_eq_false_iff,
        List.isPrefixOf_iff_prefix] at hendpoint
      obtain ⟨denied, hmem, hne, hprefix⟩ := hendpoint
      exact iff_of_true rfl (Or.inl (Or.inr (Or.inl ⟨hne, denied, hmem, hprefix⟩)))
    · rename_i hendpoint
      have hendpoint' : ¬ (resource payload ≠ [] ∧
          ∃ denied ∈ engine.config.deniedEndpoints, denied <+: resource payload) := by
        rintro ⟨hne, denied, hmem, hprefix⟩
        apply hendpoint
        simp only [List.any_eq_true, Bool.and_eq_true, Bool.not_eq_true',
          List.isEmpty_eq_false_iff, List.isPrefixOf_iff_prefix]
        exact ⟨denied, hmem, hne, hprefix⟩
      rw [or_iff_right hpath', or_iff_right hendpoint']
      split
      · rename_i hsyscall
        have hmem : syscall payload ∈ engine.config.deniedSyscalls := by simpa using hsyscall
        exact iff_of_true rfl (Or.inl hmem)
      · rename_i hsyscall
        have hmem : syscall payload ∉ engine.config.deniedSyscalls := by simpa using hsyscall
        rw [or_iff_right hmem]
        split
        · rename_i hlimit
          exact iff_of_true rfl hlimit
        · rename_i hlimit
          exact iff_of_false (by simp) hlimit

theorem evaluate_deny_iff (engine : Engine) (event : Event) :
    (engine.evaluate event).1 = .deny ↔
      engine.config.Matches event.payload ∨ (engine.count event.payload).OverLimit event.payload := by
  have hbroken := (engine.count event.payload).broken_isSome_iff event.payload
  rw [count_config] at hbroken
  rw [← hbroken]
  rcases engine.evaluate_cases event with ⟨hnone, hallow, _⟩ | ⟨rule, named, hsome, hdeny, _⟩
  · simp [hnone, hallow]
  · simp [hsome, hdeny]

theorem evaluate_config (engine : Engine) (event : Event) :
    (engine.evaluate event).2.config = engine.config := by
  rw [evaluate]
  split <;> exact count_config ..

/-- The count goes up whether or not the event is denied. -/
theorem evaluate_processCount (engine : Engine) (event : Event) :
    (engine.evaluate event).2.processCount = (engine.count event.payload).processCount := by
  rw [evaluate]
  split <;> rfl

/-! ## A sequence of events -/

/-- The engine after it has evaluated the events. -/
def after (engine : Engine) (events : List Event) : Engine :=
  events.foldl (fun engine event => (engine.evaluate event).2) engine

theorem after_append (engine : Engine) (events : List Event) (event : Event) :
    engine.after (events ++ [event]) = ((engine.after events).evaluate event).2 := by
  rw [after, List.foldl_append]
  rfl

theorem after_config (engine : Engine) (events : List Event) :
    (engine.after events).config = engine.config := by
  induction events using List.reverseRecOn with
  | nil => rfl
  | append_singleton events event ih => rw [after_append, evaluate_config, ih]

end Engine

theorem spawned_append (events : List Event) (event : Event) :
    spawned (events ++ [event]) = spawned events + if processSpawn event.payload then 1 else 0 := by
  rw [spawned, List.countP_append, List.countP_singleton]
  rfl

theorem count_processCount (engine : Engine) (events : List Event) (event : Event)
    (h : engine.processCount = spawned events % 2 ^ 64) :
    (engine.count event.payload).processCount = spawned (events ++ [event]) % 2 ^ 64 := by
  rw [Engine.count, spawned_append]
  split
  · rw [← Nat.mod_add_mod (spawned events), ← h]
  · exact h

theorem after_processCount (config : Config) (events : List Event) :
    (Engine.after { config := config } events).processCount = spawned events % 2 ^ 64 := by
  induction events using List.reverseRecOn with
  | nil => rfl
  | append_singleton events event ih =>
    rw [Engine.after_append, Engine.evaluate_processCount]
    exact count_processCount _ events event ih

/-- The event is denied when it comes behind the events `earlier`. -/
def Config.Denies (config : Config) (earlier : List Event) (event : Event) : Prop :=
  ((Engine.after { config := config } earlier).evaluate event).1 = .deny

/-- Where no other rule matches, the limit decides about a new process. -/
theorem denies_spawned_iff {config : Config} {earlier : List Event} {event : Event}
    (hspawn : processSpawn event.payload = true) (hother : ¬ config.Matches event.payload) :
    config.Denies earlier event ↔
      config.maxProcesses ≠ 0 ∧ config.maxProcesses < spawned (earlier ++ [event]) % 2 ^ 64 := by
  rw [Config.Denies, Engine.evaluate_deny_iff, Engine.after_config, or_iff_right hother,
    Engine.OverLimit, Engine.count_config, Engine.after_config,
    count_processCount _ earlier event (after_processCount config earlier)]
  exact and_iff_right hspawn

/-! ## The streams -/

/-- The event that reports the violation. -/
def Violation.event (violation : Violation) : Event :=
  ⟨.policyViolation violation.rule violation.resource, violation.context⟩

/-- The second stream is the first one with a violation directly behind each denied event,
in the context of that event; the violations by themselves are the list. -/
inductive Annotates (config : Config) : List Event → List Event → List Violation → Prop
  | start : Annotates config [] [] []
  | allowed {input output : List Event} {violations : List Violation} {event : Event} :
    Annotates config input output violations → ¬ config.Denies input event →
      Annotates config (input ++ [event]) (output ++ [event]) violations
  | denied {input output : List Event} {violations : List Violation} {event : Event}
      {violation : Violation} :
    Annotates config input output violations → config.Denies input event →
      violation.context = event.context →
      Annotates config (input ++ [event]) (output ++ [event, violation.event])
        (violations ++ [violation])

section Front

variable {ρ : Type} (R : Reporter ρ)

/-- The reporter after the events. -/
def frontAfter (config : Config) (downstream : ρ) (events : List Event) : Front ρ :=
  events.foldl (reporter R).report { engine := { config := config }, downstream := downstream }

theorem frontAfter_append (config : Config) (downstream : ρ) (events : List Event) (event : Event) :
    frontAfter R config downstream (events ++ [event]) =
      (reporter R).report (frontAfter R config downstream events) event := by
  rw [frontAfter, List.foldl_append]
  rfl

/-- What the reporter does with one event. -/
theorem report_cases (s : Front ρ) (event : Event) :
    ((s.engine.evaluate event).1 ≠ .deny ∧
        (s.engine.evaluate event).2.violations = s.engine.violations ∧
        (reporter R).report s event =
          { s with engine := (s.engine.evaluate event).2, downstream := R.report s.downstream event }) ∨
      ∃ violation : Violation, (s.engine.evaluate event).1 = .deny ∧
        violation.context = event.context ∧
        (s.engine.evaluate event).2.violations = s.engine.violations ++ [violation] ∧
        (reporter R).report s event =
          { engine := (s.engine.evaluate event).2
            denied := true
            downstream := R.report (R.report s.downstream event) violation.event } := by
  have hcases := s.engine.evaluate_cases event
  rw [reporter]
  dsimp only
  generalize s.engine.evaluate event = evaluated at *
  obtain ⟨decision, engine⟩ := evaluated
  rcases hcases with ⟨_, hallow, hsame⟩ | ⟨rule, named, _, hdeny, hlog⟩
  · cases hallow
    exact Or.inl ⟨(fun h => nomatch h), hsame, rfl⟩
  · cases hdeny
    have hlast : engine.violations.getLast? = some ⟨rule, named, event.context⟩ := by
      rw [show engine.violations = _ from hlog, List.getLast?_concat]
    refine Or.inr ⟨⟨rule, named, event.context⟩, rfl, rfl, hlog, ?_⟩
    simp only [hlast]
    rfl

theorem frontAfter_engine (config : Config) (downstream : ρ) (events : List Event) :
    (frontAfter R config downstream events).engine = Engine.after { config := config } events := by
  induction events using List.reverseRecOn with
  | nil => rfl
  | append_singleton events event ih =>
    rw [frontAfter_append, Engine.after_append, ← ih]
    rcases report_cases R (frontAfter R config downstream events) event with
      ⟨_, _, heq⟩ | ⟨violation, _, _, _, heq⟩
    · rw [heq]
    · rw [heq]

theorem frontAfter_denied (config : Config) (downstream : ρ) (events : List Event) :
    (frontAfter R config downstream events).denied = true ↔
      (frontAfter R config downstream events).engine.violations ≠ [] := by
  induction events using List.reverseRecOn with
  | nil => exact iff_of_false Bool.false_ne_true fun h => h rfl
  | append_singleton events event ih =>
    rw [frontAfter_append]
    rcases report_cases R (frontAfter R config downstream events) event with
      ⟨_, hsame, heq⟩ | ⟨violation, _, _, hlog, heq⟩
    · rw [heq]
      dsimp only
      rw [hsame]
      exact ih
    · rw [heq]
      dsimp only
      rw [hlog]
      exact iff_of_true rfl (by simp)

end Front

/-- The annotated stream is what the reporter behind receives, whichever it is. -/
theorem exists_annotated (config : Config) (events : List Event) :
    ∃ output, Annotates config events output (Engine.after { config := config } events).violations ∧
      ∀ (ρ : Type) (R : Reporter ρ) (downstream : ρ),
        (frontAfter R config downstream events).downstream = output.foldl R.report downstream := by
  induction events using List.reverseRecOn with
  | nil => exact ⟨[], .start, fun _ _ _ => rfl⟩
  | append_singleton events event ih =>
    obtain ⟨output, hannotates, hreceived⟩ := ih
    -- what is denied does not depend on the reporter behind, so any one will do to decide it
    rcases (Engine.after { config := config } events).evaluate_cases event with
      ⟨_, hallow, hsame⟩ | ⟨rule, named, _, hdeny, hlog⟩
    · refine ⟨output ++ [event], ?_, ?_⟩
      · rw [Engine.after_append, hsame]
        apply hannotates.allowed
        rw [Config.Denies, hallow]
        decide
      · intro ρ R downstream
        rw [frontAfter_append, List.foldl_append, ← hreceived]
        rcases report_cases R (frontAfter R config downstream events) event with
          ⟨_, _, heq⟩ | ⟨violation, hdeny, _⟩
        · rw [heq]
          rfl
        · rw [frontAfter_engine, hallow] at hdeny
          cases hdeny
    · refine ⟨output ++ [event, Violation.event ⟨rule, named, event.context⟩], ?_, ?_⟩
      · rw [Engine.after_append, hlog]
        exact hannotates.denied hdeny rfl
      · intro ρ R downstream
        rw [frontAfter_append, List.foldl_append, ← hreceived]
        rcases report_cases R (frontAfter R config downstream events) event with
          ⟨hallow, _⟩ | ⟨violation, _, _, hlog', heq⟩
        · rw [frontAfter_engine] at hallow
          exact absurd hdeny hallow
        · rw [frontAfter_engine, hlog] at hlog'
          have hsame := List.append_cancel_left hlog'
          rw [heq, ← List.head_eq_of_cons_eq hsame]
          rfl

/-- For every sequence of events, the reporter behind receives the annotated stream, the
engine keeps its violations, and the count is that of the processes. -/
theorem transduces (config : Config) (events : List Event) :
    (∃ output, ∀ (ρ : Type) (R : Reporter ρ) (downstream : ρ),
      let s := frontAfter R config downstream events
      s.downstream = output.foldl R.report downstream ∧
        Annotates config events output s.engine.violations ∧
        (s.denied = true ↔ s.engine.violations ≠ []) ∧
        s.engine.processCount = spawned events % 2 ^ 64) ∧
      ∀ earlier event, earlier ++ [event] <+: events → processSpawn event.payload = true →
        ¬ config.Matches event.payload →
        (config.Denies earlier event ↔
          config.maxProcesses ≠ 0 ∧
            config.maxProcesses < spawned (earlier ++ [event]) % 2 ^ 64) := by
  constructor
  · obtain ⟨output, hannotates, hreceived⟩ := exists_annotated config events
    refine ⟨output, ?_⟩
    intro ρ R downstream
    have hengine := frontAfter_engine R config downstream events
    refine ⟨hreceived ρ R downstream, ?_, frontAfter_denied R config downstream events, ?_⟩
    · rw [hengine]
      exact hannotates
    · rw [hengine]
      exact after_processCount config events
  · intro earlier event _ hspawn hother
    exact denies_spawned_iff hspawn hother

/-- A reporter that keeps the events it is given. -/
def recorder : Reporter (List Event) where
  report events event := events ++ [event]

/-- `n` times the same new process. -/
def spawns (n : Nat) : List Event := List.replicate n ⟨.processSpawned 101 100, {}⟩

theorem spawned_spawns (n : Nat) : spawned (spawns n) = n := by
  rw [spawned, spawns, List.countP_replicate]
  rfl

/-- After `2 ^ 64` processes the count is back at zero. -/
theorem processCount_wraps :
    spawned (spawns (2 ^ 64)) = 2 ^ 64 ∧
      (frontAfter recorder {} [] (spawns (2 ^ 64))).engine.processCount = 0 := by
  refine ⟨spawned_spawns _, ?_⟩
  rw [frontAfter_engine, after_processCount, spawned_spawns, Nat.mod_self]

/-! ## Runs under the recorder

The system does not see which reporter a run has. What any reporter ends with can therefore be
read off the events that a recorder has kept in its place, with the policy in front or not. -/

section Recorded

variable {env : Trace.TraceEnv} {code : Int} {events : List Event}

/-- Every reporter makes of a run what it makes of the events that a recorder has kept. -/
theorem run_foldl {ρ : Type} (R : Reporter ρ) (reporter : ρ)
    (h : Trace.run recorder [] env = some (code, events)) :
    Trace.run R reporter env = some (code, events.foldl R.report reporter) := by
  have hreport : ∀ events event,
      (recorder.report events event).foldl R.report reporter =
        R.report (events.foldl R.report reporter) event :=
    fun events event => List.foldl_append
  have hrun := Trace.run_relay (f := fun events => events.foldl R.report reporter) hreport [] env
  rw [h] at hrun
  exact hrun

/-- The recorder runs when any reporter does. -/
theorem exists_recorded {ρ : Type} {R : Reporter ρ} {reporter reporter' : ρ}
    (h : Trace.run R reporter env = some (code, reporter')) :
    ∃ events, Trace.run recorder [] env = some (code, events) ∧
      reporter' = events.foldl R.report reporter := by
  have hreport : ∀ events event,
      (recorder.report events event).foldl R.report reporter =
        R.report (events.foldl R.report reporter) event :=
    fun events event => List.foldl_append
  have hrun := Trace.run_relay (f := fun events => events.foldl R.report reporter) hreport [] env
  rw [List.foldl_nil, h] at hrun
  obtain ⟨⟨code', events⟩, hrecorded, heq⟩ := Option.map_eq_some_iff.mp hrun.symm
  cases heq
  exact ⟨events, hrecorded, rfl⟩

/-- With the policy in front, a reporter receives the annotated events. -/
theorem run_annotated (config : Config)
    (h : Trace.run recorder [] env = some (code, events)) :
    ∃ output, Annotates config events output
        (Engine.after { config := config } events).violations ∧
      ∀ (ρ : Type) (R : Reporter ρ) (downstream : ρ), ∃ policy : Front ρ,
        Trace.run (reporter R) { engine := { config := config }, downstream := downstream }
          env = some (code, policy) ∧
        policy.downstream = output.foldl R.report downstream := by
  obtain ⟨output, hannotates, hreceived⟩ := exists_annotated config events
  refine ⟨output, hannotates, ?_⟩
  intro ρ R downstream
  exact ⟨_, run_foldl (reporter R) _ h, hreceived ρ R downstream⟩

end Recorded

end ExeCell.Policy
