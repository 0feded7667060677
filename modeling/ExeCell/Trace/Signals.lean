import ExeCell.Trace.Stream
import Mathlib.Data.List.Chain

/-!
# The signals of the tasks

A task that stops because of a signal gets the signal when it is resumed. One variable
holds the pending signal of all tasks, and one flag says whether a task is to be resumed at
all. `Traffic` is what passes between the kernel and the tracer: the stops that `waitpid`
reports and the resumptions. The stops of the loop are answered as they should be
(`answered_loop`). The very first stop, which `trace::run` waits for before the loop, is not
looked at: whatever it was, the root is resumed without a signal.
-/

namespace ExeCell.Trace

open Report

inductive Traffic where
  | stopped (pid : Pid) (status : Nat)
  | resumed (pid : Pid) (signal : Nat)
  deriving DecidableEq, Repr

/-- `WSTOPSIG`. -/
def stopSignal (status : Nat) : Nat := WaitStatus.exitStatus status

/-- The stop is due to a signal that the task is to get: not a trap, not a syscall stop, and
not one of the signals that stop a task. -/
def isForwarded (status : Nat) : Bool :=
  WaitStatus.ifStopped status && stopSignal status ≠ sigTrap &&
    stopSignal status ≠ (sigTrap ||| 0x80) && stopSignal status ≠ sigStop &&
    stopSignal status ≠ sigTstp && stopSignal status ≠ sigTtin && stopSignal status ≠ sigTtou

/-- The signal with which the task is to be resumed. -/
def signalDue (status : Nat) : Nat := if isForwarded status then stopSignal status else 0

/-- Every forwarded signal is answered by the next resumption, which is of the task that
was stopped, or the tracer still goes on; and a resumption that does not answer a signal
carries none. -/
structure Forwarded (traffic : List Traffic) (goesOn : Prop) : Prop where
  answered : ∀ front pid status rest, traffic = front ++ .stopped pid status :: rest →
    isForwarded status = true →
    (∃ later, rest = .resumed pid (stopSignal status) :: later) ∨ rest = [] ∧ goesOn
  quiet : ∀ front pid signal rest, traffic = front ++ .resumed pid signal :: rest → signal = 0 ∨
    ∃ earlier status, front = earlier ++ [.stopped pid status] ∧ isForwarded status = true ∧
      signal = stopSignal status

/-! ## Neighbours -/

/-- What forwarding means for two neighbours. -/
structure Neighbours (first second : Traffic) : Prop where
  answered : ∀ pid status, first = .stopped pid status → isForwarded status = true →
    second = .resumed pid (stopSignal status)
  quiet : ∀ pid signal, second = .resumed pid signal → signal = 0 ∨
    ∃ status, first = .stopped pid status ∧ isForwarded status = true ∧ signal = stopSignal status

theorem forwarded_iff_chain {traffic : List Traffic} {goesOn : Prop}
    (hhead : ∀ pid signal, traffic.head? ≠ some (.resumed pid signal)) :
    Forwarded traffic goesOn ↔ traffic.IsChain Neighbours ∧
      ∀ pid status, traffic.getLast? = some (.stopped pid status) → isForwarded status = true →
        goesOn := by
  constructor
  · intro hforwarded
    refine ⟨?_, ?_⟩
    · rw [List.isChain_iff_forall_rel_of_append_cons_cons]
      rintro first second front rest rfl
      constructor
      · rintro pid status rfl hsignal
        rcases hforwarded.answered front pid status _ rfl hsignal with ⟨later, heq⟩ | ⟨heq, _⟩
        · exact (List.cons.inj heq).1
        · cases heq
      · rintro pid signal rfl
        rcases hforwarded.quiet (front ++ [first]) pid signal rest (by simp) with
          hzero | ⟨earlier, status, heq, hsignal⟩
        · exact Or.inl hzero
        · obtain ⟨_, hfirst⟩ := List.append_inj' heq rfl
          exact Or.inr ⟨status, List.head_eq_of_cons_eq hfirst, hsignal⟩
    · intro pid status hlast hsignal
      obtain ⟨front, rfl⟩ := List.getLast?_eq_some_iff.mp hlast
      rcases hforwarded.answered front pid status [] rfl hsignal with ⟨later, heq⟩ | ⟨_, hgoesOn⟩
      · cases heq
      · exact hgoesOn
  · rintro ⟨hchain, hlast⟩
    rw [List.isChain_iff_forall_rel_of_append_cons_cons] at hchain
    constructor
    · rintro front pid status rest rfl hsignal
      cases rest with
      | nil => exact Or.inr ⟨rfl, hlast pid status List.getLast?_concat hsignal⟩
      | cons next rest =>
        have hnext := (hchain rfl).answered pid status rfl hsignal
        exact Or.inl ⟨rest, by rw [hnext]⟩
    · rintro front pid signal rest rfl
      induction front using List.reverseRecOn with
      | nil => exact absurd rfl (hhead pid signal)
      | append_singleton front first _ =>
        rw [List.append_assoc, List.singleton_append] at hchain
        rcases (hchain rfl).quiet pid signal rfl with hzero | ⟨status, rfl, hsignal⟩
        · exact Or.inl hzero
        · exact Or.inr ⟨front, status, rfl, hsignal⟩

/-! ## What a stop leaves pending -/

section Stops

variable {root pid : Pid} {entry : Option Task} {status : Nat} {answers : Answers}

theorem classifyStop_of_isForwarded (h : isForwarded status = true) :
    (classifyStop pid status).kind = .signal ∧
      (classifyStop pid status).signal = stopSignal status ∧ stopSignal status ≠ sigTrap := by
  simp only [isForwarded, Bool.and_eq_true, decide_eq_true_eq] at h
  obtain ⟨⟨⟨⟨⟨⟨hstopped, htrap⟩, hsyscall⟩, hstop⟩, htstp⟩, httin⟩, httou⟩ := h
  obtain ⟨hexited, hsignaled⟩ := WaitStatus.not_ended_of_ifStopped hstopped
  unfold classifyStop
  unfold stopSignal at *
  simp [hexited, hsignaled, hstopped, htrap, hsyscall, hstop, htstp, httin, httou]

theorem isForwarded_of_kind (h : (classifyStop pid status).kind = .signal)
    (htrap : (classifyStop pid status).signal ≠ sigTrap) : isForwarded status = true := by
  unfold classifyStop at h htrap
  unfold isForwarded stopSignal
  grind

/-- A task is resumed with the signal that is due. -/
theorem resumeSignal_classifyStop : resumeSignal (classifyStop pid status) = signalDue status := by
  unfold resumeSignal signalDue
  cases hforwarded : isForwarded status with
  | true =>
    obtain ⟨hkind, hsignal, htrap⟩ := @classifyStop_of_isForwarded pid status hforwarded
    rw [if_pos hkind, hsignal, if_neg htrap, if_pos rfl]
  | false =>
    rw [if_neg Bool.false_ne_true]
    split
    · rename_i hkind
      split
      · rfl
      · rename_i htrap
        rw [isForwarded_of_kind hkind htrap] at hforwarded
        cases hforwarded
    · rfl

/-- The signal that a stop leaves pending is the one that is due. -/
theorem signal_effectOf_eq :
    (effectOf root entry (classifyStop pid status) answers).signal.getD 0 = signalDue status := by
  have hother : (classifyStop pid status).kind ≠ .signal → signalDue status = 0 := by
    intro hkind
    rw [← @resumeSignal_classifyStop pid, resumeSignal, if_neg hkind]
  cases hsignal : (effectOf root entry (classifyStop pid status) answers).signal with
  | none =>
    refine (hother ?_).symm
    intro hkind
    rw [effectOf, hkind] at hsignal
    cases hsignal
  | some signal =>
    obtain ⟨_, _, heq⟩ := signal_effectOf (by rw [hsignal]; exact Option.some_ne_none signal)
    rw [hsignal, resumeSignal_classifyStop] at heq
    exact Option.some.inj heq

theorem effectOf_of_isForwarded (h : isForwarded status = true) :
    effectOf root entry (classifyStop pid status) answers = { signal := some (signalDue status) } := by
  rw [effectOf, (classifyStop_of_isForwarded h).1, resumeSignal_classifyStop]

end Stops

/-! ## The traffic of a run -/

variable {ρ : Type} {R : Reporter ρ}

/-- The resumptions among the actions. -/
def resumptions (actions : List Action) : List Traffic :=
  actions.filterMap fun
    | .resume pid signal => some (.resumed pid signal)
    | _ => none

/-- The stop that an iteration waits for, if it gets that far. -/
def waited (s : Loop ρ) (answers : Answers) : List Traffic :=
  if s.resumeFails answers then []
  else
    match answers.wait with
    | .ok (pid, status) => [.stopped pid status]
    | .error _ => []

def trafficFrom (R : Reporter ρ) : Loop ρ → List Answers → List Traffic
  | _, [] => []
  | s, answers :: inputs =>
    match step R s answers with
    | none => []
    | some (actions, t) => resumptions actions ++ (waited s answers ++ trafficFrom R t inputs)

/-- All that passes between the kernel and the tracer: the stop of the root that
`trace::run` waits for at first, and then what passes in the loop. -/
def traffic (R : Reporter ρ) (root : Pid) (initial : Nat) (reporter : ρ) (inputs : List Answers) :
    List Traffic :=
  .stopped root initial :: trafficFrom R (start R root reporter).2 inputs

/-- After none of these events does the reporter request a stop. -/
def NeverStops (R : Reporter ρ) : ρ → List Event → Prop
  | _, [] => True
  | reporter, event :: events =>
    R.stopRequested (R.report reporter event) = false ∧ NeverStops R (R.report reporter event) events

theorem neverStops_append {reporter : ρ} {events events' : List Event} :
    NeverStops R reporter (events ++ events') ↔
      NeverStops R reporter events ∧ NeverStops R (events.foldl R.report reporter) events' := by
  induction events generalizing reporter with
  | nil => simp [NeverStops]
  | cons event events ih =>
    rw [List.cons_append, NeverStops, NeverStops, ih, List.foldl_cons, and_assoc]

section Runs

variable {s t : Loop ρ} {pid : Pid} {status : Nat} {answers : Answers} {actions : List Action}
  {inputs : List Answers} {outputs : List (List Action)}

theorem emitAll_quiet {payloads : List Payload}
    (h : NeverStops R s.reporter (eventsFrom s.sequence pid payloads)) :
    (emitAll R s pid payloads).2.pendingSignal = s.pendingSignal := by
  induction payloads generalizing s with
  | nil => rfl
  | cons payload payloads ih =>
    rw [eventsFrom, NeverStops] at h
    rw [emitAll, @ih (emit R s payload pid).2 h.2]
    exact if_neg (by rw [h.1]; exact Bool.false_ne_true)

theorem resumptions_resumption (s : Loop ρ) : resumptions s.resumption =
    if s.resumeCurrent then [.resumed s.currentPid s.pendingSignal] else [] := by
  unfold Loop.resumption
  split <;> rfl

theorem resumptions_step (h : step R s answers = some (actions, t)) :
    resumptions actions =
      if s.resumeCurrent then [.resumed s.currentPid s.pendingSignal] else [] := by
  rw [← resumptions_resumption]
  obtain ⟨_, _, ⟨_, rfl, _⟩ | ⟨pid, status, _, _, rfl, _⟩⟩ := step_cases h
  · rfl
  · rw [apply_actions, resumptions, List.filterMap_append]
    refine (congrArg (_ ++ ·) ?_).trans (List.append_nil _)
    apply List.filterMap_eq_nil_iff.mpr
    intro action hmem
    rcases List.mem_append.mp hmem with hmem | hmem
    · rcases calls_effectOf hmem with rfl | rfl <;> rfl
    · obtain ⟨event, _, rfl⟩ := List.mem_map.mp hmem
      rfl

/-- The state of the loop fits what has passed last. -/
structure Ready (last : Traffic) (s : Loop ρ) : Prop where
  resumes : s.resumeCurrent = true → Neighbours last (.resumed s.currentPid s.pendingSignal)
  waits : s.resumeCurrent = false → s.pendingSignal = 0 ∧
    ∀ pid status, last = .stopped pid status → isForwarded status = false
  goesOn : ∀ pid status, last = .stopped pid status → isForwarded status = true → s.result = none

theorem neighbours_signalDue (pid : Pid) (status : Nat) :
    Neighbours (.stopped pid status) (.resumed pid (signalDue status)) := by
  unfold signalDue
  constructor
  · intro pid' status' heq hforwarded
    cases heq
    rw [if_pos hforwarded]
  · intro pid' signal heq
    cases heq
    split
    · rename_i hforwarded
      exact Or.inr ⟨status, rfl, hforwarded, rfl⟩
    · exact Or.inl rfl

/-- After a stop has been handled, the signal that is due is pending for its task. -/
theorem ready_step {last : Traffic} (hready : Ready last s)
    (hquiet : NeverStops R s.reporter (reported actions)) (hresumes : s.resumeFails answers = false)
    (hwait : answers.wait = .ok (pid, status)) (h : step R s answers = some (actions, t)) :
    Ready (.stopped pid status) t := by
  obtain ⟨hreturned, htasks, ⟨hfailed | hfailed, _, _⟩ | ⟨stopped, status', _, hwait', rfl, rfl⟩⟩ :=
    step_cases h
  · rw [hresumes] at hfailed
    cases hfailed
  · rw [hwait] at hfailed
    cases hfailed
  rw [hwait] at hwait'
  obtain ⟨rfl, rfl⟩ := Prod.mk.inj (Except.ok.inj hwait')
  rw [reported_append, reported_resumption, List.nil_append, Loop.effectAt, reported_apply] at hquiet
  have hresumed : s.resumed.pendingSignal = 0 := by
    unfold Loop.resumed
    cases hcurrent : s.resumeCurrent with
    | true => rfl
    | false => exact (hready.waits hcurrent).1
  have hpending : ((s.effectAt pid status answers).apply R { s.resumed with currentPid := pid }
      pid).2.pendingSignal = signalDue status := by
    have hemitted := @emitAll_quiet _ R { s.resumed with currentPid := pid } pid _ hquiet
    rw [apply_pendingSignal, Loop.effectAt, hemitted]
    exact (congrArg _ hresumed).trans signal_effectOf_eq
  constructor
  · intro _
    rw [hpending, apply_currentPid]
    exact neighbours_signalDue pid status
  · intro hwaits
    have hother : isForwarded status = false := by
      by_contra hforwarded
      rw [Bool.not_eq_false] at hforwarded
      rw [apply_resumeCurrent, Loop.effectAt, effectOf_of_isForwarded hforwarded] at hwaits
      cases hwaits
    refine ⟨?_, ?_⟩
    · rw [hpending, signalDue, hother]
      rfl
    · intro pid' status' heq
      cases heq
      exact hother
  · intro pid' status' heq hforwarded
    cases heq
    have hsame : ((s.effectAt pid status answers).apply R { s.resumed with currentPid := pid }
        pid).2.result = s.result := by
      unfold Loop.result
      rw [apply_returned, apply_tasks, Loop.effectAt, effectOf_of_isForwarded hforwarded]
      rfl
    rw [hsame, Loop.result, hreturned, htasks]
    rfl

theorem neighbours_stopped {last : Traffic}
    (hlast : ∀ pid status, last = .stopped pid status → isForwarded status = false) :
    Neighbours last (.stopped pid status) := by
  constructor
  · intro pid' status' heq hforwarded
    rw [hlast pid' status' heq] at hforwarded
    cases hforwarded
  · intro pid' signal heq
    cases heq

/-- An iteration that fails passes on nothing but its resumption, and is the last one. -/
theorem answered_failure {last : Traffic} (hready : Ready last s)
    (hfailed : s.resumeFails answers = true ∨ answers.wait.toOption = none) :
    waited s answers = [] ∧
      ∀ front, front = (if s.resumeCurrent then [.resumed s.currentPid s.pendingSignal] else []) →
        (last :: front).IsChain Neighbours ∧
        ∀ pid status, (last :: front).getLast? = some (.stopped pid status) →
          isForwarded status = false := by
  constructor
  · unfold waited
    split
    · rfl
    · rename_i hresumes
      have hwait := hfailed.resolve_left hresumes
      cases hanswer : answers.wait with
      | ok stopped =>
        rw [hanswer] at hwait
        cases hwait
      | error code => rfl
  · rintro front rfl
    cases hcurrent : s.resumeCurrent with
    | true =>
      refine ⟨List.isChain_pair.mpr (hready.resumes hcurrent), ?_⟩
      intro pid status heq
      cases heq
    | false =>
      refine ⟨List.isChain_singleton _, ?_⟩
      intro pid status heq
      exact (hready.waits hcurrent).2 pid status (Option.some.inj heq)

/-- What passes next fits what has passed last, all along a run of the loop. -/
theorem answered_loop {last : Traffic} (hready : Ready last s)
    (hquiet : NeverStops R s.reporter (reported outputs.flatten))
    (h : Machine.run (step R) s inputs = some (outputs, t)) :
    (last :: trafficFrom R s inputs).IsChain Neighbours ∧
      ∀ pid status, (last :: trafficFrom R s inputs).getLast? = some (.stopped pid status) →
        isForwarded status = true → t.result = none := by
  induction inputs generalizing s last outputs with
  | nil =>
    cases h
    refine ⟨List.isChain_singleton _, ?_⟩
    intro pid status heq
    exact hready.goesOn pid status (Option.some.inj heq)
  | cons answers inputs ih =>
    obtain ⟨actions, s', later, hstep, hrest, rfl⟩ := Machine.run_cons.mp h
    rw [List.flatten_cons, reported_append, neverStops_append, ← reporter_step hstep] at hquiet
    rw [trafficFrom, hstep]
    dsimp only
    rw [resumptions_step hstep]
    obtain ⟨_, _, ⟨hfailed, _, rfl⟩ | ⟨pid, status, hresumes, hwait, _, _⟩⟩ := step_cases hstep
    · obtain ⟨hwaited, hfront⟩ := answered_failure hready hfailed
      obtain ⟨hchain, hlast⟩ := hfront _ rfl
      have hnone : trafficFrom R { s.resumed with returned := some exitFailure } inputs = [] := by
        cases inputs <;> rfl
      rw [hwaited, hnone, List.append_nil, List.append_nil]
      refine ⟨hchain, ?_⟩
      intro pid status heq hforwarded
      rw [hlast pid status heq] at hforwarded
      cases hforwarded
    · have hwaited : waited s answers = [.stopped pid status] := by
        rw [waited, hresumes, if_neg Bool.false_ne_true, hwait]
      have hnext := ready_step hready hquiet.1 hresumes hwait hstep
      obtain ⟨hchain, hlast⟩ := ih hnext hquiet.2 hrest
      rw [hwaited]
      cases hcurrent : s.resumeCurrent with
      | true =>
        refine ⟨?_, hlast⟩
        have hstopped : Neighbours (.resumed s.currentPid s.pendingSignal) (.stopped pid status) := by
          apply neighbours_stopped
          intro pid' status' heq
          cases heq
        exact List.isChain_cons_cons.mpr ⟨hready.resumes hcurrent,
          List.isChain_cons_cons.mpr ⟨hstopped, hchain⟩⟩
      | false =>
        refine ⟨?_, hlast⟩
        exact List.isChain_cons_cons.mpr
          ⟨neighbours_stopped (hready.waits hcurrent).2, hchain⟩

/-- In every run whose reporter never requests a stop, signals are forwarded as they should
be, the stop before the loop included, if and only if that stop was not due to a signal that
is to be forwarded; as long as nothing has been resumed there is no harm yet. -/
theorem forwarded_iff (R : Reporter ρ) {root : Pid} {reporter : ρ} (initial : Nat)
    (hrun : Machine.run (step R) (start R root reporter).2 inputs = some (outputs, t))
    (hquiet : NeverStops R reporter (stream R root reporter outputs)) :
    Forwarded (traffic R root initial reporter inputs) (t.result = none) ↔
      inputs = [] ∨ (isForwarded initial = true → stopSignal initial = 0) := by
  rw [stream, reported_append, reported_start, neverStops_append] at hquiet
  obtain ⟨⟨hstart, _⟩, hloop⟩ := hquiet
  have hpending : (start R root reporter).2.pendingSignal = 0 :=
    if_neg (by rw [hstart]; exact Bool.false_ne_true)
  have hresult : (start R root reporter).2.result = none := by
    have hfind : ((start R root reporter).2.tasks.find root).isSome = true := by
      rw [(start_find R root reporter).1]
      rfl
    have hreturned : (start R root reporter).2.returned = none := rfl
    rw [Loop.result, hreturned, TaskRegistry.isEmpty_of_find hfind]
    rfl
  rw [forwarded_iff_chain (by intro pid signal heq; cases heq), traffic]
  cases inputs with
  | nil =>
    cases hrun
    refine iff_of_true ⟨List.isChain_singleton _, fun _ _ _ _ => hresult⟩ (Or.inl rfl)
  | cons answers inputs =>
    rw [or_iff_right (List.cons_ne_nil _ _)]
    constructor
    · rintro ⟨hchain, _⟩ hforwarded
      obtain ⟨actions, s', later, hstep, _, _⟩ := Machine.run_cons.mp hrun
      rw [trafficFrom, hstep] at hchain
      dsimp only at hchain
      rw [resumptions_step hstep] at hchain
      have hfirst := (List.isChain_cons_cons.mp hchain).1
      have hanswer := hfirst.answered root initial rfl hforwarded
      rw [hpending] at hanswer
      exact (Traffic.resumed.inj hanswer).2.symm
    · intro hinitial
      refine answered_loop ⟨?_, ?_, ?_⟩ hloop hrun
      · intro _
        have hdue : signalDue initial = 0 := by
          unfold signalDue
          split
          · rename_i hforwarded
            exact hinitial hforwarded
          · rfl
        rw [hpending, ← hdue]
        exact neighbours_signalDue root initial
      · intro hwaits
        cases hwaits
      · intro _ _ _ _
        exact hresult

end Runs

/-- `SIGUSR1`. -/
def sigUsr1 : Nat := 10

/-- Task 100 gets a signal, and exits. -/
def signalAnswers : List Answers := [.signaled 100 sigUsr1, .call 100 231 0, .exited 100 0]

/-- The stop before the loop is the trap of `execve`. -/
theorem forwarded_afterTrap :
    ∃ outputs t, Machine.run (step nullReporter) (start nullReporter 100 ()).2 signalAnswers =
        some (outputs, t) ∧
      NeverStops nullReporter () (stream nullReporter 100 () outputs) ∧
      Forwarded (traffic nullReporter 100 (WaitStatus.ofStop 0 sigTrap) () signalAnswers)
        (t.result = none) := by
  refine ⟨_, _, rfl, ⟨rfl, rfl, rfl, trivial⟩, ?_⟩
  have hiff := @forwarded_iff _ _ signalAnswers _ nullReporter 100 () (WaitStatus.ofStop 0 sigTrap)
    rfl ⟨rfl, rfl, rfl, trivial⟩
  exact hiff.mpr (Or.inr (by decide))

/-- The stop before the loop is due to a signal that arrived before `execve`: the task does
not get it. -/
theorem not_forwarded_beforeExec :
    ∃ outputs t, Machine.run (step nullReporter) (start nullReporter 100 ()).2 signalAnswers =
        some (outputs, t) ∧
      NeverStops nullReporter () (stream nullReporter 100 () outputs) ∧
      ¬ Forwarded (traffic nullReporter 100 (WaitStatus.ofStop 0 sigUsr1) () signalAnswers)
        (t.result = none) := by
  refine ⟨_, _, rfl, ⟨rfl, rfl, rfl, trivial⟩, ?_⟩
  intro hforwarded
  rcases hforwarded.answered [] 100 _ _ rfl rfl with ⟨later, heq⟩ | ⟨heq, _⟩
  · have hfirst : Traffic.resumed 100 0 = .resumed 100 sigUsr1 := (List.cons.inj heq).1
    exact absurd hfirst (by decide)
  · cases heq

end ExeCell.Trace
