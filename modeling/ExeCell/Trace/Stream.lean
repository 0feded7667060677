import ExeCell.Trace.Effect
import ExeCell.Trace.Phase

/-!
# The stream of events

The events that a run hands to the reporter, one after another. They come from several
places of the loop; `payloads_effectOf` says what a stop can add to them. The counter of
the events is a 64-bit variable.
-/

namespace ExeCell

/-- The events of the life of a task; no system call is behind them. -/
def Payload.isLifecycle : Payload → Bool
  | .traceStarted _ | .traceFinished .. | .processSpawned .. | .processExited .. => true
  | _ => false

/-- The events that are made of a system call. -/
def Payload.isDecoded : Payload → Bool
  | .policyViolation .. => false
  | payload => !payload.isLifecycle

theorem Payload.isLifecycle_of_isDecoded {payload : Payload} (h : payload.isDecoded = true) :
    payload.isLifecycle = false := by
  cases payload <;> first | rfl | cases h

def Payload.isFinished : Payload → Bool
  | .traceFinished .. => true
  | _ => false

namespace Trace

open Report

/-! ## What a stop reports -/

theorem onEntry_payload {pid : Pid} {tracee : Tracee} {payload : Payload}
    (h : payload ∈ (SyscallDecoder.onEntry pid tracee).2) : payload.isDecoded = true := by
  revert h
  fun_cases SyscallDecoder.onEntry pid tracee <;> rintro ⟨⟩
  rfl

theorem onExit_payload {d : SyscallDecoder} {table : FdTable} {pid : Pid} {tracee : Tracee}
    {payload : Payload} (h : payload ∈ (d.onExit table pid tracee).2) :
    payload.isDecoded = true := by
  revert h
  fun_cases SyscallDecoder.onExit d table pid tracee
  all_goals
    intro h
    first
    | obtain ⟨path, _, rfl⟩ := Option.map_eq_some_iff.mp h
      rfl
    | cases h
      done
    | cases h
      rfl

theorem payloads_decodeEffect {task : Task} {pid : Pid} {tracee : Tracee} :
    (decodeEffect task pid tracee).payloads = [] ∨
      ∃ payload, payload.isDecoded = true ∧
        (decodeEffect task pid tracee).payloads = [payload] := by
  have hoption : ∀ decoded : Option Payload, (∀ payload ∈ decoded, payload.isDecoded = true) →
      decoded.toList = [] ∨ ∃ payload, payload.isDecoded = true ∧ decoded.toList = [payload] := by
    intro decoded hmade
    cases decoded with
    | none => exact Or.inl rfl
    | some payload => exact Or.inr ⟨payload, hmade payload rfl, rfl⟩
  unfold decodeEffect
  cases task.phase with
  | entry =>
    have hdecoded := hoption (SyscallDecoder.onEntry pid tracee).2 fun _ hmem => onEntry_payload hmem
    generalize SyscallDecoder.onEntry pid tracee = decoded at hdecoded
    exact hdecoded
  | exit =>
    have hdecoded := hoption (task.decoder.onExit task.fdTable pid tracee).2
      fun _ hmem => onExit_payload hmem
    generalize task.decoder.onExit task.fdTable pid tracee = decoded at hdecoded
    exact hdecoded
  | unknown => exact Or.inl rfl

/-- What a stop reports: nothing, the end of its task, a child, or one event of the decoder. -/
theorem payloads_effectOf {root : Pid} {entry : Option Task} {stop : Stop} {answers : Answers} :
    (effectOf root entry stop answers).payloads = [] ∨
      ((stop.kind = .exited ∨ stop.kind = .signaled) ∧
        effectOf root entry stop answers = endEffect root stop) ∨
      (∃ child task, (effectOf root entry stop answers).child = some (child, task) ∧
        (effectOf root entry stop answers).payloads = [.processSpawned child stop.pid]) ∨
      ∃ payload, payload.isDecoded = true ∧
        (effectOf root entry stop answers).payloads = [payload] := by
  unfold effectOf
  cases hkind : stop.kind with
  | exited => exact Or.inr (Or.inl ⟨Or.inl rfl, rfl⟩)
  | signaled => exact Or.inr (Or.inl ⟨Or.inr rfl, rfl⟩)
  | ptraceEvent =>
    dsimp only
    unfold eventEffect
    split
    · exact Or.inl rfl
    · exact Or.inl rfl
    · split
      · exact Or.inr (Or.inr (Or.inl ⟨_, _, rfl, rfl⟩))
      · split <;> exact Or.inl rfl
  | syscall =>
    dsimp only
    unfold syscallEffect
    split
    · exact Or.inl rfl
    · split <;> exact Or.inl rfl
    · rcases payloads_decodeEffect with hnone | hone
      · exact Or.inl hnone
      · exact Or.inr (Or.inr (Or.inr hone))
  | signal => exact Or.inl rfl
  | groupStop => exact Or.inl rfl
  | unknown => exact Or.inl rfl

variable {ρ : Type} {R : Reporter ρ} {s t : Loop ρ} {answers : Answers} {actions : List Action}
  {inputs : List Answers} {outputs : List (List Action)}

/-! ## The numbers of the events -/

/-- The events are numbered from `first` on; the counter has 64 bits. -/
def Numbered (first : Nat) (events : List Event) : Prop :=
  ∀ n event, events[n]? = some event → event.context.sequence = (first + n) % 2 ^ 64

theorem Numbered.append {first : Nat} {events events' : List Event} (h : Numbered first events)
    (h' : Numbered ((first + events.length) % 2 ^ 64) events') :
    Numbered first (events ++ events') := by
  intro n event hevent
  rcases Nat.lt_or_ge n events.length with hlt | hge
  · rw [List.getElem?_append_left hlt] at hevent
    exact h n event hevent
  · rw [List.getElem?_append_right hge] at hevent
    rw [h' _ event hevent]
    omega

theorem numbered_eventsFrom {first : Nat} (hfirst : first < 2 ^ 64) (pid : Pid)
    (payloads : List Payload) : Numbered first (eventsFrom first pid payloads) := by
  induction payloads generalizing first with
  | nil =>
    intro n event hevent
    cases hevent
  | cons payload payloads ih =>
    intro n event hevent
    rw [eventsFrom] at hevent
    cases n with
    | zero =>
      cases hevent
      exact (Nat.mod_eq_of_lt hfirst).symm
    | succ n =>
      rw [ih (Nat.mod_lt _ (by decide)) n event hevent]
      omega

theorem length_eventsFrom (first : Nat) (pid : Pid) (payloads : List Payload) :
    (eventsFrom first pid payloads).length = payloads.length := by
  rw [← List.length_map (·.payload), payload_eventsFrom]

theorem emitAll_sequence {pid : Pid} {payloads : List Payload} (hs : s.sequence < 2 ^ 64) :
    (emitAll R s pid payloads).2.sequence = (s.sequence + payloads.length) % 2 ^ 64 := by
  induction payloads generalizing s with
  | nil => exact (Nat.mod_eq_of_lt hs).symm
  | cons payload payloads ih =>
    have hnext : (emit R s payload pid).2.sequence = (s.sequence + 1) % 2 ^ 64 := rfl
    rw [emitAll, ih (hnext ▸ Nat.mod_lt _ (by decide)), hnext, List.length_cons]
    omega

/-- The reporter has got the events of the iteration. -/
theorem reporter_step (h : step R s answers = some (actions, t)) :
    t.reporter = (reported actions).foldl R.report s.reporter := by
  obtain ⟨_, hnone, rfl⟩ | ⟨pid, status, _, _, hevents, rfl⟩ := reported_step h
  · rw [hnone]
    rfl
  · rw [hevents, apply_reporter]
    rfl

/-- The counter counts the events. -/
theorem numbered_step (hs : s.sequence < 2 ^ 64) (h : step R s answers = some (actions, t)) :
    Numbered s.sequence (reported actions) ∧
      t.sequence = (s.sequence + (reported actions).length) % 2 ^ 64 := by
  obtain ⟨_, hnone, rfl⟩ | ⟨pid, status, _, _, hevents, rfl⟩ := reported_step h
  · rw [hnone]
    refine ⟨?_, (Nat.mod_eq_of_lt hs).symm⟩
    intro n event hevent
    cases hevent
  · rw [hevents, length_eventsFrom]
    exact ⟨numbered_eventsFrom hs pid _, emitAll_sequence hs⟩

theorem numbered_run (hs : s.sequence < 2 ^ 64)
    (h : Machine.run (step R) s inputs = some (outputs, t)) :
    Numbered s.sequence (reported outputs.flatten) := by
  induction inputs generalizing s outputs with
  | nil =>
    cases h
    intro n event hevent
    cases hevent
  | cons answers inputs ih =>
    obtain ⟨actions, s', later, hstep, hrest, rfl⟩ := Machine.run_cons.mp h
    obtain ⟨hnow, hnext⟩ := numbered_step hs hstep
    rw [List.flatten_cons, reported_append]
    apply hnow.append
    rw [← hnext]
    apply ih _ hrest
    rw [hnext]
    exact Nat.mod_lt _ (by decide)

/-! ## The end of the stream -/

/-- The iteration is told that the root has ended. -/
structure RootEnds (s : Loop ρ) (answers : Answers) (status : Nat) : Prop where
  resumes : s.resumeFails answers = false
  told : answers.wait = .ok (s.rootPid, status)
  ended : WaitStatus.ifEnded status = true

/-- The last two payloads of a trace. -/
def finalPayloads (root : Pid) (status : Int) (signaled : Bool) : List Payload :=
  [.processExited root status signaled, .traceFinished root status signaled]

theorem endEffect_root {root : Pid} {stop : Stop} (h : stop.pid = root) :
    ∃ signaled, (endEffect root stop).payloads = finalPayloads root (endResult stop) signaled ∧
      (endEffect root stop).returned =
        some (if stop.kind = .signaled then 128 + endResult stop else endResult stop) := by
  unfold endEffect
  dsimp only
  rw [if_pos h, ← h]
  refine ⟨_, rfl, ?_⟩
  simp

/-- Only the end of the root finishes the trace. -/
theorem isFinished_effectOf {root : Pid} {entry : Option Task} {stop : Stop}
    (hroot : stop.pid = root → stop.kind ≠ .exited ∧ stop.kind ≠ .signaled) {payload : Payload}
    (hmem : payload ∈ (effectOf root entry stop answers).payloads) : payload.isFinished = false := by
  obtain hnone | ⟨hended, heffect⟩ | ⟨child, task, _, hone⟩ | ⟨decoded, hmade, hone⟩ :=
    @payloads_effectOf root entry stop answers
  · rw [hnone] at hmem
    cases hmem
  · have hother : stop.pid ≠ root := by
      intro heq
      rcases hended with hended | hended
      · exact (hroot heq).1 hended
      · exact (hroot heq).2 hended
    rw [heffect, endEffect, if_neg hother] at hmem
    rw [List.mem_singleton.mp hmem]
    rfl
  · rw [hone] at hmem
    rw [List.mem_singleton.mp hmem]
    rfl
  · rw [hone] at hmem
    rw [List.mem_singleton.mp hmem]
    cases decoded <;> first | rfl | cases hmade

/-- An iteration that is told of the end of the root reports it and returns; no other one
finishes the trace. -/
theorem finished_step (h : step R s answers = some (actions, t)) :
    (∃ status result signaled, RootEnds s answers status ∧
        reported actions = eventsFrom s.sequence s.rootPid
          (finalPayloads s.rootPid result signaled) ∧
        t.returned = some (WaitStatus.shellStatus status exitFailure)) ∨
      (∀ status, ¬ RootEnds s answers status) ∧
        ∀ event ∈ reported actions, event.payload.isFinished = false := by
  obtain ⟨hfailed, hnone, rfl⟩ | ⟨pid, status, hresumed, hwait, hevents, rfl⟩ := reported_step h
  · refine Or.inr ⟨?_, by simp [hnone]⟩
    rintro status ⟨hresumed, htold, _⟩
    rcases hfailed with hfailed | hfailed
    · rw [hresumed] at hfailed
      cases hfailed
    · rw [htold] at hfailed
      cases hfailed
  · by_cases hroot : pid = s.rootPid ∧ WaitStatus.ifEnded status = true
    · obtain ⟨rfl, hended⟩ := hroot
      have hkind := kind_of_ifEnded s.rootPid hended
      have heffect : s.effectAt s.rootPid status answers =
          endEffect s.rootPid (classifyStop s.rootPid status) := by
        unfold Loop.effectAt effectOf
        rcases hkind with hkind | hkind <;> rw [hkind]
      obtain ⟨signaled, hpayloads, hreturned⟩ := endEffect_root (classifyStop_pid s.rootPid status)
      refine Or.inl ⟨status, endResult (classifyStop s.rootPid status), signaled,
        ⟨hresumed, hwait, hended⟩, ?_, ?_⟩
      · rw [hevents, heffect, hpayloads]
      · rw [apply_returned, heffect, hreturned, (classifyStop_ended hkind).2.2]
        rfl
    · refine Or.inr ⟨?_, ?_⟩
      · rintro status' ⟨_, htold, hended⟩
        rw [hwait] at htold
        obtain ⟨rfl, rfl⟩ := Prod.mk.inj (Except.ok.inj htold)
        exact hroot ⟨rfl, hended⟩
      · intro event hmem
        rw [hevents] at hmem
        apply isFinished_effectOf _ (payload_of_mem_eventsFrom hmem)
        rw [classifyStop_pid]
        intro heq
        rw [← not_or]
        intro hkind
        exact hroot ⟨heq, (classifyStop_ended hkind).2.1⟩

theorem returned_of_run (h : Machine.run (step R) s inputs = some (outputs, t))
    (ht : t.returned = none) : s.returned = none := by
  cases inputs with
  | nil =>
    cases h
    exact ht
  | cons answers inputs =>
    obtain ⟨_, _, _, hstep, _, _⟩ := Machine.run_cons.mp h
    exact (step_cases hstep).1

/-- As long as the tracer goes on the trace is not finished. -/
theorem unfinished_run (h : Machine.run (step R) s inputs = some (outputs, t))
    (ht : t.returned = none) : ∀ event ∈ reported outputs.flatten, event.payload.isFinished = false := by
  induction inputs generalizing s outputs with
  | nil =>
    cases h
    intro event hmem
    cases hmem
  | cons answers inputs ih =>
    obtain ⟨actions, s', later, hstep, hrest, rfl⟩ := Machine.run_cons.mp h
    rw [List.flatten_cons, reported_append, List.forall_mem_append]
    refine ⟨?_, ih hrest⟩
    obtain ⟨_, _, _, _, _, hreturned⟩ | ⟨_, hquiet⟩ := finished_step hstep
    · rw [returned_of_run hrest ht] at hreturned
      cases hreturned
    · exact hquiet

/-! ## Whole runs -/

/-- Every event that a run has handed to the reporter. -/
def stream (R : Reporter ρ) (root : Pid) (reporter : ρ) (outputs : List (List Action)) : List Event :=
  reported ((start R root reporter).1 ++ outputs.flatten)

/-- The last iteration of the run is told that the root has ended, with this status. -/
def EndsWithRoot (R : Reporter ρ) (root : Pid) (reporter : ρ) (inputs : List Answers)
    (status : Nat) : Prop :=
  ∃ front answers outputs s, inputs = front ++ [answers] ∧
    Machine.run (step R) (start R root reporter).2 front = some (outputs, s) ∧
    RootEnds s answers status

/-- What the events of a run look like. -/
structure WellFormed (R : Reporter ρ) (root : Pid) (reporter : ρ) (inputs : List Answers)
    (outputs : List (List Action)) (t : Loop ρ) : Prop where
  /-- The first event is `TraceStarted`, for the root. -/
  started : ∃ rest, stream R root reporter outputs =
    ⟨.traceStarted root, { pid := root, sequence := 0 }⟩ :: rest
  /-- The events are numbered from zero on. -/
  numbered : Numbered 0 (stream R root reporter outputs)
  /-- Every other event carries the pid of the task whose stop it comes from. -/
  stopped : ∀ (i : Nat) (answers : Answers) (actions : List Action),
    inputs[i]? = some answers → outputs[i]? = some actions →
    ∀ event ∈ reported actions, ∃ status, answers.wait = .ok (event.context.pid, status)
  /-- `TraceFinished` is the last event, and comes after the `ProcessExited` of the root. -/
  finished : ∀ front event rest pid status signaled,
    stream R root reporter outputs = front ++ event :: rest →
    event.payload = .traceFinished pid status signaled →
    pid = root ∧ rest = [] ∧ ∃ earlier exited, front = earlier ++ [exited] ∧
      exited.payload = .processExited root status signaled
  /-- There is no second `TraceFinished`. -/
  once : (stream R root reporter outputs).countP (·.payload.isFinished) ≤ 1
  /-- It is reported exactly when the run ends because the root has. -/
  returns : (∃ event ∈ stream R root reporter outputs, event.payload.isFinished = true) ↔
    ∃ status, EndsWithRoot R root reporter inputs status
  /-- Then the result is the exit status, or 128 plus the signal. -/
  result : ∀ status, EndsWithRoot R root reporter inputs status →
    t.result = some (if WaitStatus.ifExited status then (WaitStatus.exitStatus status : Int)
      else 128 + WaitStatus.termSig status)

/-- In a list that ends with its only finished event, that event is the last one. -/
theorem split_at_last {α : Type} {front rest before : List α} {a last : α} {p : α → Bool}
    (heq : front ++ a :: rest = before ++ [last]) (hbefore : ∀ x ∈ before, p x = false)
    (ha : p a = true) : front = before ∧ a = last ∧ rest = [] := by
  induction rest using List.reverseRecOn with
  | nil =>
    obtain ⟨hfront, hlast⟩ := List.append_inj' heq rfl
    exact ⟨hfront, List.head_eq_of_cons_eq hlast, rfl⟩
  | append_singleton rest z _ =>
    rw [← List.cons_append, ← List.append_assoc] at heq
    obtain ⟨hfront, _⟩ := List.append_inj' heq rfl
    have hmem : a ∈ before := by
      rw [← hfront]
      exact List.mem_append_right _ List.mem_cons_self
    rw [hbefore a hmem] at ha
    cases ha

theorem stopped_step (h : step R s answers = some (actions, t)) :
    ∀ event ∈ reported actions, ∃ status, answers.wait = .ok (event.context.pid, status) := by
  intro event hmem
  obtain ⟨_, hnone, _⟩ | ⟨pid, status, _, hwait, hevents, _⟩ := reported_step h
  · rw [hnone] at hmem
    cases hmem
  · rw [hevents] at hmem
    rw [pid_of_mem_eventsFrom hmem]
    exact ⟨status, hwait⟩

theorem stopped_run (h : Machine.run (step R) s inputs = some (outputs, t)) {i : Nat}
    (hanswers : inputs[i]? = some answers) (hactions : outputs[i]? = some actions) :
    ∀ event ∈ reported actions, ∃ status, answers.wait = .ok (event.context.pid, status) := by
  induction inputs generalizing s outputs i with
  | nil => cases hanswers
  | cons first inputs ih =>
    obtain ⟨now, s', later, hstep, hrest, rfl⟩ := Machine.run_cons.mp h
    cases i with
    | zero =>
      cases hanswers
      cases hactions
      exact stopped_step hstep
    | succ i => exact ih hrest hanswers hactions

section Runs

variable {root : Pid} {reporter : ρ} {status : Nat}

theorem reported_start (R : Reporter ρ) (root : Pid) (reporter : ρ) :
    reported (start R root reporter).1 = [⟨.traceStarted root, { pid := root, sequence := 0 }⟩] :=
  rfl

/-- A run that is told of the end of the root ends with the two events about it. -/
theorem EndsWithRoot.stream (hends : EndsWithRoot R root reporter inputs status)
    (hrun : Machine.run (step R) (start R root reporter).2 inputs = some (outputs, t)) :
    ∃ earlier exited finished result signaled,
      Trace.stream R root reporter outputs = (earlier ++ [exited]) ++ [finished] ∧
      exited.payload = .processExited root result signaled ∧
      finished.payload = .traceFinished root result signaled ∧
      (∀ event ∈ earlier ++ [exited], event.payload.isFinished = false) ∧
      t.returned = some (WaitStatus.shellStatus status exitFailure) := by
  obtain ⟨front, answers, outs, s, rfl, hfront, hroot⟩ := hends
  obtain ⟨_, _, hfront', _, hlast, rfl⟩ := Machine.run_append.mp hrun
  obtain ⟨rfl, rfl⟩ := Prod.mk.inj (Option.some.inj (hfront.symm.trans hfront'))
  obtain ⟨actions, _, _, hstep, hnil, rfl⟩ := Machine.run_cons.mp hlast
  cases hnil
  have hsame : s.rootPid = root := rootPid_run hfront
  obtain ⟨status', result, signaled, hroot', hevents, hreturned⟩ | ⟨hnone, _⟩ := finished_step hstep
  · have hstatus : status' = status := by
      have htold := hroot.told.symm.trans hroot'.told
      exact (Prod.mk.inj (Except.ok.inj htold)).2.symm
    rw [hsame] at hevents
    refine ⟨reported ((start R root reporter).1 ++ outs.flatten),
      ⟨.processExited root result signaled, { pid := root, sequence := s.sequence }⟩,
      ⟨.traceFinished root result signaled,
        { pid := root, sequence := (s.sequence + 1) % 2 ^ 64 }⟩,
      result, signaled, ?_, rfl, rfl, ?_, hstatus ▸ hreturned⟩
    · rw [Trace.stream, List.flatten_append, ← List.append_assoc, reported_append,
        List.flatten_singleton, hevents, List.append_assoc]
      rfl
    · rw [List.forall_mem_append, reported_append, List.forall_mem_append, reported_start]
      refine ⟨⟨by simp [Payload.isFinished], unfinished_run hfront (step_cases hstep).1⟩, ?_⟩
      intro event hmem
      rw [List.mem_singleton.mp hmem]
      rfl
  · exact absurd hroot (hnone status)

/-- No other run finishes the trace. -/
theorem unfinished_stream (hends : ∀ status, ¬ EndsWithRoot R root reporter inputs status)
    (hrun : Machine.run (step R) (start R root reporter).2 inputs = some (outputs, t)) :
    ∀ event ∈ stream R root reporter outputs, event.payload.isFinished = false := by
  rw [stream, reported_append, List.forall_mem_append, reported_start]
  refine ⟨by simp [Payload.isFinished], ?_⟩
  induction inputs using List.reverseRecOn generalizing outputs t with
  | nil =>
    cases hrun
    intro event hmem
    cases hmem
  | append_singleton front answers _ =>
    obtain ⟨outs, s, hfront, _, hlast, rfl⟩ := Machine.run_append.mp hrun
    obtain ⟨actions, _, _, hstep, hnil, rfl⟩ := Machine.run_cons.mp hlast
    cases hnil
    obtain ⟨status, _, _, hroot, _⟩ | ⟨_, hquiet⟩ := finished_step hstep
    · exact absurd ⟨front, answers, outs, s, rfl, hfront, hroot⟩ (hends status)
    · rw [List.flatten_append, reported_append, List.forall_mem_append]
      refine ⟨unfinished_run hfront (step_cases hstep).1, ?_⟩
      rw [List.flatten_singleton]
      exact hquiet

theorem numbered_stream
    (hrun : Machine.run (step R) (start R root reporter).2 inputs = some (outputs, t)) :
    Numbered 0 (stream R root reporter outputs) := by
  have hcounter : (start R root reporter).2.sequence < 2 ^ 64 := Nat.mod_lt _ (by decide)
  have hrest : Numbered ((0 + 1) % 2 ^ 64) (reported outputs.flatten) := numbered_run hcounter hrun
  rw [stream, reported_append, reported_start]
  refine Numbered.append ?_ hrest
  intro n event hevent
  cases n with
  | zero =>
    cases hevent
    rfl
  | succ n => cases hevent

/-- The events of every run: they are numbered from zero on with a 64-bit counter and carry
the pid of the stopped task, the first one is `TraceStarted`, and `TraceFinished` is reported
once, as the last one and after the `ProcessExited` of the root, in exactly those runs that
end because the root has. -/
theorem stream_wellFormed (R : Reporter ρ)
    (hrun : Machine.run (step R) (start R root reporter).2 inputs = some (outputs, t)) :
    WellFormed R root reporter inputs outputs t where
  started := ⟨reported outputs.flatten, by rw [stream, reported_append]; rfl⟩
  numbered := numbered_stream hrun
  stopped := fun i answers actions hanswers hactions => stopped_run hrun hanswers hactions
  finished := by
    intro front event rest pid status signaled hsplit hpayload
    have hfinished : event.payload.isFinished = true := by
      rw [hpayload]
      rfl
    by_cases hends : ∃ status, EndsWithRoot R root reporter inputs status
    · obtain ⟨_, hends⟩ := hends
      obtain ⟨earlier, exited, last, result, signaled', hstream, hexited, hlast, hquiet, _⟩ :=
        hends.stream hrun
      rw [hstream] at hsplit
      obtain ⟨rfl, rfl, rfl⟩ := split_at_last (p := (·.payload.isFinished)) hsplit.symm hquiet hfinished
      rw [hlast] at hpayload
      cases hpayload
      exact ⟨rfl, rfl, earlier, exited, rfl, hexited⟩
    · have hmem : event ∈ stream R root reporter outputs := by
        rw [hsplit]
        exact List.mem_append_right _ List.mem_cons_self
      rw [unfinished_stream (not_exists.mp hends) hrun event hmem] at hfinished
      cases hfinished
  once := by
    by_cases hends : ∃ status, EndsWithRoot R root reporter inputs status
    · obtain ⟨_, hends⟩ := hends
      obtain ⟨earlier, exited, last, _, _, hstream, _, _, hquiet, _⟩ := hends.stream hrun
      have hnone : (earlier ++ [exited]).countP (·.payload.isFinished) = 0 := by
        rw [List.countP_eq_zero]
        intro event hmem
        rw [hquiet event hmem]
        exact Bool.false_ne_true
      rw [hstream, List.countP_append, hnone, Nat.zero_add]
      exact List.countP_le_length
    · have hnone : (stream R root reporter outputs).countP (·.payload.isFinished) = 0 := by
        rw [List.countP_eq_zero]
        intro event hmem
        rw [unfinished_stream (not_exists.mp hends) hrun event hmem]
        exact Bool.false_ne_true
      omega
  returns := by
    constructor
    · rintro ⟨event, hmem, hfinished⟩
      by_contra hends
      rw [unfinished_stream (not_exists.mp hends) hrun event hmem] at hfinished
      cases hfinished
    · rintro ⟨status, hends⟩
      obtain ⟨_, _, last, _, _, hstream, _, hlast, _⟩ := hends.stream hrun
      refine ⟨last, ?_, ?_⟩
      · rw [hstream]
        exact List.mem_append_right _ List.mem_cons_self
      · rw [hlast]
        rfl
  result := by
    intro status hends
    obtain ⟨_, _, _, _, _, _, _, _, _, hreturned⟩ := hends.stream hrun
    obtain ⟨_, _, _, _, _, _, _, _, hended⟩ := hends
    rw [WaitStatus.ifEnded, Bool.or_eq_true] at hended
    rw [Loop.result, hreturned, WaitStatus.shellStatus]
    by_cases hexited : WaitStatus.ifExited status = true
    · rw [if_pos hexited, if_pos hexited]
    · rw [if_neg hexited, if_neg hexited, if_pos (hended.resolve_left hexited)]

end Runs

/-- Task 100 gets a signal and exits with status 3. -/
def exitAnswers : List Answers := [.signaled 100 10, .call 100 231 0, .exited 100 3]

theorem stream_wellFormed_exit :
    ∃ outputs t, Machine.run (step nullReporter) (start nullReporter 100 ()).2 exitAnswers =
        some (outputs, t) ∧ WellFormed nullReporter 100 () exitAnswers outputs t :=
  ⟨_, _, rfl, stream_wellFormed nullReporter rfl⟩

/-! ## The counter -/

/-- The end of a task that is not registered. -/
def strayExit : Answers := .exited 7 0

theorem strayExit_step (R : Reporter ρ) (hreturned : s.returned = none)
    (hroot : (s.tasks.find 100).isSome = true) (hpid : s.rootPid = 100) :
    ∃ actions t, step R s strayExit = some (actions, t) ∧ (reported actions).length = 1 ∧
      t.returned = none ∧ (t.tasks.find 100).isSome = true ∧ t.rootPid = 100 := by
  obtain ⟨actions, t, hstep⟩ := exists_step R strayExit hreturned
    (TaskRegistry.isEmpty_of_find hroot)
  obtain ⟨hevents, ht⟩ := step_waited rfl rfl hstep
  have heffect : s.effectAt 7 (WaitStatus.ofExit 0) strayExit =
      { payloads := [.processExited 7 0 false], entry := some none, resume := false } := by
    unfold Loop.effectAt
    rw [classifyStop_exit, hpid]
    rfl
  rw [heffect] at hevents ht
  subst ht
  refine ⟨actions, _, hstep, by rw [hevents, length_eventsFrom]; rfl, hreturned, ?_, ?_⟩
  · rw [apply_tasks]
    exact (congrArg Option.isSome (TaskRegistry.find_erase_of_ne _ (by decide))).trans hroot
  · rw [apply_rootPid]
    exact hpid

theorem strayExit_run (R : Reporter ρ) (n : Nat) (hreturned : s.returned = none)
    (hroot : (s.tasks.find 100).isSome = true) (hpid : s.rootPid = 100) :
    ∃ outputs t, Machine.run (step R) s (List.replicate n strayExit) = some (outputs, t) ∧
      (reported outputs.flatten).length = n := by
  induction n generalizing s with
  | zero => exact ⟨[], s, rfl, rfl⟩
  | succ n ih =>
    obtain ⟨actions, s', hstep, hone, hreturned', hroot', hpid'⟩ :=
      strayExit_step R hreturned hroot hpid
    obtain ⟨outputs, t, hrun, hlength⟩ := ih hreturned' hroot' hpid'
    refine ⟨actions :: outputs, t, ?_, ?_⟩
    · rw [List.replicate_succ]
      exact Machine.run_cons.mpr ⟨actions, s', outputs, hstep, hrun, rfl⟩
    · rw [List.flatten_cons, reported_append, List.length_append, hone, hlength, Nat.add_comm]

/-- After `2 ^ 64` more events a number comes again. -/
theorem stream_number_repeats :
    ∃ outputs t first again,
      Machine.run (step nullReporter) (start nullReporter 100 ()).2
        (List.replicate (2 ^ 64) strayExit) = some (outputs, t) ∧
      (stream nullReporter 100 () outputs)[0]? = some first ∧
      (stream nullReporter 100 () outputs)[2 ^ 64]? = some again ∧
      first.context.sequence = again.context.sequence := by
  obtain ⟨outputs, t, hrun, hlength⟩ :=
    @strayExit_run _ (start nullReporter 100 ()).2 nullReporter (2 ^ 64) rfl rfl rfl
  have hstream : (stream nullReporter 100 () outputs).length = 2 ^ 64 + 1 := by
    rw [stream, reported_append, List.length_append, hlength, reported_start, Nat.add_comm]
    rfl
  have hnumbered := numbered_stream hrun
  have hfirst := List.getElem?_eq_getElem (l := stream nullReporter 100 () outputs) (i := 0) (by omega)
  have hagain := List.getElem?_eq_getElem (l := stream nullReporter 100 () outputs) (i := 2 ^ 64)
    (by omega)
  refine ⟨outputs, t, _, _, hrun, hfirst, hagain, ?_⟩
  rw [hnumbered _ _ hfirst, hnumbered _ _ hagain]
  omega

end Trace

end ExeCell
