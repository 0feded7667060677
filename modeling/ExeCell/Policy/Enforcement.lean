import ExeCell.Policy.Engine
import ExeCell.Trace.Effect
import ExeCell.Trace.Phase

/-!
# Enforcing the policy

After a denial `trace::run` kills by way of `pending_signal`: whenever it reports an event
and the reporter asks it to stop, the next resumption carries `SIGKILL`. The variable is
set at no other place. A stop for which nothing is reported leaves it as it is, that is at
zero if the task before was resumed, and the branch that forwards signals overwrites it.

`enforced_iff` says for which runs this is enough.
-/

namespace ExeCell.Policy

open Report Trace

/-- A reporter that has asked to stop does not take it back. -/
def StaysStopped {ρ : Type} (R : Reporter ρ) : Prop :=
  ∀ r event, R.stopRequested r = true → R.stopRequested (R.report r event) = true

theorem staysStopped_reporter {ρ : Type} (R : Reporter ρ) : StaysStopped (reporter R) := by
  intro s event hdenied
  change (((reporter R).report s event).denied = true)
  rw [reporter]
  dsimp only
  split
  · exact hdenied
  · rfl

variable {ρ : Type} {R : Reporter ρ} {s t : Loop ρ} {answers : Answers} {actions : List Action}
  {pid : Pid} {status : Nat}

/-- After the request to stop, everything that this iteration resumes it kills. -/
def Kills (R : Reporter ρ) (s : Loop ρ) (answers : Answers) : Prop :=
  R.stopRequested s.reporter = true → ∀ actions t, step R s answers = some (actions, t) →
    ∀ pid signal, .resume pid signal ∈ actions → signal = sigKill

/-- The decoder makes an event of a syscall stop of a task with this entry. -/
def decodes (entry : Option Task) (pid : Pid) (tracee : Except Errno Tracee) : Bool :=
  match entry, tracee with
  | some task, .ok tracee => !(decodeEffect task pid tracee).payloads.isEmpty
  | _, _ => false

/-- After this stop the loop still kills. The stop is of a task with this entry, and
`resumed` says whether a task was resumed since the kill was made pending. -/
def leavesKill (resumed : Bool) (entry : Option Task) (stop : Stop) (answers : Answers) : Bool :=
  match stop.kind with
  | .exited | .signaled => true
  | .ptraceEvent => !resumed || (announces stop.ptraceEvent && entry.isSome)
  | .syscall => !resumed || decodes entry stop.pid answers.tracee
  | .signal | .groupStop | .unknown => resumeSignal stop = sigKill

/-- If a stop has been requested, the stop of this iteration is one after which the loop
still kills. -/
def StillKills (R : Reporter ρ) (s : Loop ρ) (answers : Answers) : Prop :=
  R.stopRequested s.reporter = true → ∀ stopped ∈ answers.wait.toOption,
    leavesKill s.resumeCurrent (s.tasks.find stopped.1) (classifyStop stopped.1 stopped.2)
      answers = true

instance (R : Reporter ρ) (s : Loop ρ) (answers : Answers) : Decidable (StillKills R s answers) :=
  inferInstanceAs (Decidable (_ → _))

/-- A stop has been requested, and nothing was resumed since the last task ended: the kill
is still pending. -/
def Primed (R : Reporter ρ) (s : Loop ρ) : Prop :=
  R.stopRequested s.reporter = true → s.resumeCurrent = false → s.returned = none →
    s.pendingSignal = sigKill

/-- What the loop will resume next it will kill. -/
def KillsNext (R : Reporter ρ) (s : Loop ρ) : Prop :=
  R.stopRequested s.reporter = true → s.resumeCurrent = true → s.pendingSignal = sigKill

/-! ## One iteration -/

theorem mem_resumption {signal : Nat} :
    .resume pid signal ∈ s.resumption ↔
      s.resumeCurrent = true ∧ pid = s.currentPid ∧ signal = s.pendingSignal := by
  rw [Loop.resumption]
  cases s.resumeCurrent with
  | true => simp
  | false => simp

/-- The only resumption of an iteration is the one it begins with. -/
theorem mem_actions {signal : Nat} (h : step R s answers = some (actions, t)) :
    .resume pid signal ∈ actions ↔ .resume pid signal ∈ s.resumption := by
  obtain ⟨_, _, ⟨_, rfl, _⟩ | ⟨stopped, status, _, _, rfl, _⟩⟩ := step_cases h
  · exact Iff.rfl
  · rw [List.mem_append, apply_actions, List.mem_append]
    constructor
    · rintro (hresumed | hcall | hreport)
      · exact hresumed
      · rcases calls_effectOf hcall with heq | heq
        · cases heq
        · cases heq
      · obtain ⟨event, _, heq⟩ := List.mem_map.mp hreport
        cases heq
    · exact Or.inl

theorem kills_iff (h : step R s answers = some (actions, t)) :
    Kills R s answers ↔ KillsNext R s := by
  constructor
  · intro hkills hrequested hresume
    apply hkills hrequested actions t h s.currentPid
    rw [mem_actions h, mem_resumption]
    exact ⟨hresume, rfl, rfl⟩
  · intro hnext hrequested actions' t' h' pid signal hmem
    rw [mem_actions h', mem_resumption] at hmem
    rw [hmem.2.2]
    exact hnext hrequested hmem.1

/-- An event after which the reporter asks to stop makes the kill pending. -/
theorem emitAll_kills {payloads : List Payload} (hne : payloads ≠ [])
    (hrequested : R.stopRequested (emitAll R s pid payloads).2.reporter = true) :
    (emitAll R s pid payloads).2.pendingSignal = sigKill := by
  induction payloads generalizing s with
  | nil => exact absurd rfl hne
  | cons payload payloads ih =>
    cases payloads with
    | nil => exact if_pos hrequested
    | cons next payloads => exact ih (List.cons_ne_nil _ _) hrequested

/-- The kill that a stop leaves pending, when a stop was requested before it or for it. -/
theorem apply_kills {effect : Effect} (hne : effect.payloads ≠ []) (hsignal : effect.signal = none)
    (hrequested : R.stopRequested (effect.apply R s pid).2.reporter = true) :
    (effect.apply R s pid).2.pendingSignal = sigKill := by
  rw [apply_pendingSignal, hsignal]
  exact emitAll_kills hne hrequested

theorem primed_step (h : step R s answers = some (actions, t)) : Primed R t := by
  intro hrequested hresume hreturned
  obtain ⟨_, _, ⟨_, _, rfl⟩ | ⟨stopped, status, _, _, _, rfl⟩⟩ := step_cases h
  · cases hreturned
  · -- the task has ended, which is reported
    have hquiet : (s.effectAt stopped status answers).resume = false := by
      rw [apply_resumeCurrent, Bool.or_eq_false_iff] at hresume
      exact hresume.1
    rw [apply_returned, Option.or_eq_none_iff] at hreturned
    rcases resume_effectOf hquiet with hover | ⟨_, hne⟩
    · have hnone : (s.effectAt stopped status answers).returned = none := hreturned.1
      rw [Loop.effectAt] at hnone
      rw [hnone] at hover
      cases hover
    · have hsignal : (s.effectAt stopped status answers).signal = none := by
        by_contra hsome
        exact hne (signal_effectOf hsome).1
      exact apply_kills hne hsignal hrequested

/-- What the condition on a stop says of its effect. -/
theorem leavesKill_iff {resumed : Bool} {entry : Option Task} {root : Pid} {stop : Stop}
    (hresume : (effectOf root entry stop answers).resume = true) :
    leavesKill resumed entry stop answers = true ↔
      (effectOf root entry stop answers).payloads ≠ [] ∨
        (effectOf root entry stop answers).signal.getD (if resumed then 0 else sigKill) =
          sigKill := by
  have hkill : (0 : Nat) ≠ sigKill := by decide
  have hpending : (if resumed then 0 else sigKill) = sigKill ↔ resumed = false := by
    cases resumed <;> simp [hkill]
  unfold leavesKill
  unfold effectOf at hresume ⊢
  cases hkind : stop.kind with
  | exited => exact iff_of_true rfl (Or.inl payloads_endEffect)
  | signaled => exact iff_of_true rfl (Or.inl payloads_endEffect)
  | ptraceEvent =>
    rw [hkind] at hresume
    simp only [eventEffect] at hresume ⊢
    grind
  | syscall =>
    rw [hkind] at hresume
    simp only [syscallEffect] at hresume ⊢
    grind [decodeEffect, decodes]
  | signal => simp
  | groupStop => simp
  | unknown => simp

/-- The next resumption is a kill exactly when the stop before it is one after which the
loop still kills. -/
theorem killsNext_iff (hprimed : Primed R s)
    (h : step R s answers = some (actions, t)) (hlive : t.returned = none) :
    KillsNext R t ↔ StillKills R s answers := by
  obtain ⟨hreturned, _, ⟨_, _, rfl⟩ | ⟨stopped, status, _, hwait, _, rfl⟩⟩ := step_cases h
  · cases hlive
  rw [apply_returned, Option.or_eq_none_iff] at hlive
  have hstill : StillKills R s answers ↔ (R.stopRequested s.reporter = true →
      leavesKill s.resumeCurrent (s.tasks.find stopped) (classifyStop stopped status)
        answers = true) := by
    rw [StillKills, hwait]
    simp [Except.toOption]
  rw [hstill]
  cases hresume : (s.effectAt stopped status answers).resume with
  | false =>
    -- the task has ended, and nothing is to be resumed
    have hended : leavesKill s.resumeCurrent (s.tasks.find stopped) (classifyStop stopped status)
        answers = true := by
      rcases resume_effectOf hresume with hover | ⟨hkind | hkind, _⟩
      · rw [show (effectOf _ _ _ _).returned = none from hlive.1] at hover
        cases hover
      · rw [leavesKill, hkind]
      · rw [leavesKill, hkind]
    refine iff_of_true ?_ fun _ => hended
    intro _ hresumes
    rw [apply_resumeCurrent, hresume] at hresumes
    cases hresumes
  | true =>
    rw [leavesKill_iff hresume]
    by_cases hne : (s.effectAt stopped status answers).payloads = []
    · -- nothing is reported, and what was pending stays so
      have hreporter : ((s.effectAt stopped status answers).apply R
          { s.resumed with currentPid := stopped } stopped).2.reporter = s.reporter := by
        rw [apply_reporter, hne]
        rfl
      have hpending : ((s.effectAt stopped status answers).apply R
          { s.resumed with currentPid := stopped } stopped).2.pendingSignal =
          (s.effectAt stopped status answers).signal.getD
            (if s.resumeCurrent then 0 else s.pendingSignal) := by
        rw [apply_pendingSignal, hne]
        rfl
      rw [KillsNext, hreporter, hpending, apply_resumeCurrent, hresume]
      refine imp_congr_right fun hrequested => ?_
      have hkept : (if s.resumeCurrent then 0 else s.pendingSignal) =
          if s.resumeCurrent then 0 else sigKill := by
        cases hresumed : s.resumeCurrent with
        | true => rfl
        | false => exact hprimed hrequested hresumed hreturned
      rw [hkept]
      constructor
      · intro hkills
        exact Or.inr (hkills rfl)
      · intro hkills _
        exact hkills.resolve_left fun hreported => hreported hne
    · have hsignal : (s.effectAt stopped status answers).signal = none := by
        by_contra hsome
        exact hne (signal_effectOf hsome).1
      refine iff_of_true ?_ fun _ => Or.inl hne
      intro hrequested _
      exact apply_kills hne hsignal hrequested

/-! ## Whole runs -/

variable (R) in
/-- The state of the loop in which a run under this policy starts. -/
def policyStart (config : Config) (downstream : ρ) (root : Pid) : Loop (Front ρ) :=
  (start (reporter R) root { engine := { config := config }, downstream := downstream }).2

/-- A denial is not taken back, and in every run under a policy everything that is resumed
after a denial is killed if and only if every stop that is handled after a denial, but for
the last, is one after which the loop still kills. -/
theorem enforced_iff (R : Reporter ρ) (config : Config) (downstream : ρ) (root : Pid)
    {inputs : List Answers} {outputs : List (List Action)} {s : Loop (Front ρ)}
    (hrun : Machine.run (step (reporter R)) (policyStart R config downstream root) inputs =
      some (outputs, s)) :
    StaysStopped (reporter R) ∧
      (Machine.Along (step (reporter R)) (Kills (reporter R))
          (policyStart R config downstream root) inputs ↔
        Machine.Along (step (reporter R)) (StillKills (reporter R))
          (policyStart R config downstream root) inputs.dropLast) := by
  have hstart : KillsNext (reporter R) (policyStart R config downstream root) := by
    intro hrequested _
    exact if_pos hrequested
  refine ⟨staysStopped_reporter R, ?_⟩
  apply Machine.along_iff_along_dropLast (Primed (reporter R)) _ _ _ _ _ _ hrun
  · intro t answers actions u _ hstep
    exact primed_step hstep
  · intro t answers actions u answers' actions' v hprimed hstep hstep'
    rw [kills_iff hstep']
    exact killsNext_iff hprimed hstep (step_cases hstep').1
  · intro hrequested hresume _
    cases hresume
  · intro answers hfirst hrequested actions t hstep
    exact (kills_iff hstep).mpr hstart hrequested actions t hstep

/-- Task 100 may start one process and starts a second one. -/
def secondFork : List KernelReport :=
  [{ pid := 100, stop := .syscallEnter, tracee := .ok (stoppedIn 57) },
    { pid := 100, stop := .event ptraceEventFork, message := .ok 101, tracee := .error esrch },
    { pid := 101, stop := .signal sigStop, tracee := .error esrch },
    { pid := 100, stop := .syscallExit, tracee := .ok (stoppedIn 57) },
    { pid := 100, stop := .syscallEnter, tracee := .ok (stoppedIn 57) },
    { pid := 100, stop := .event ptraceEventFork, message := .ok 102, tracee := .error esrch }]

/-- The two tasks then stop again, the first at the end of its call. -/
def afterDenial : List KernelReport :=
  [{ pid := 101, stop := .syscallEnter, tracee := .ok (stoppedIn 39) },
    { pid := 100, stop := .syscallExit, tracee := .ok (stoppedIn 57) }]

def oneProcess : Config := { maxProcesses := 1 }

/-- The task that is denied its second process is resumed with `SIGKILL`. -/
theorem enforced_secondFork :
    ∃ outputs s, Machine.run (step (reporter nullReporter)) (policyStart nullReporter oneProcess () 100)
        ((secondFork ++ afterDenial.drop 1).map KernelReport.answers) = some (outputs, s) ∧
      Machine.Along (step (reporter nullReporter)) (Kills (reporter nullReporter))
        (policyStart nullReporter oneProcess () 100)
        ((secondFork ++ afterDenial.drop 1).map KernelReport.answers) := by
  refine ⟨_, _, rfl, ?_⟩
  exact (enforced_iff nullReporter oneProcess () 100 rfl).2.mpr (by decide)

/-- The other task, which stops for a system call meanwhile, runs on. -/
theorem not_enforced :
    ∃ outputs s, Machine.run (step (reporter nullReporter)) (policyStart nullReporter oneProcess () 100)
        ((secondFork ++ afterDenial).map KernelReport.answers) = some (outputs, s) ∧
      outputs.flatten.contains (.resume 101 0) ∧
      ¬ Machine.Along (step (reporter nullReporter)) (Kills (reporter nullReporter))
        (policyStart nullReporter oneProcess () 100)
        ((secondFork ++ afterDenial).map KernelReport.answers) := by
  refine ⟨_, _, rfl, by decide, ?_⟩
  intro halong
  have hkills := @Machine.Along.at _ _ _ _ (Kills (reporter nullReporter)) _ _
    ((secondFork ++ afterDenial.take 1).map KernelReport.answers) [] _ _ halong rfl
  exact absurd (hkills rfl _ _ rfl 101 0 (by decide)) (by decide)

end ExeCell.Policy
