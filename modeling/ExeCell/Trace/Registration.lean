import ExeCell.Trace.Effect
import ExeCell.Trace.Phase

/-!
# The registration of a new task

A new task stops for the first time around the time at which its parent stops for the
event that announces it, and `waitpid` may report the two in either order. The tracer
registers the task at the event, in the entry phase; to the stops of a task that it has not
registered it pays no attention.

`registration_iff` says when this comes to the same: the tracer has an entry for a new task
exactly while the task lives, and in the phase of its next syscall stop, if and only if at
the event the parent is registered and the child outside the kernel (or neither is there
any more), and no later stop of the child puts the phase out of step.
-/

namespace ExeCell.Trace

open Report

variable {ρ : Type} {R : Reporter ρ}

/-- The report announces this child. -/
def announcesChild (child : Pid) (report : KernelReport) : Bool :=
  match report.stop, report.message with
  | .event kind, .ok message => announces kind && toInt32 message = child
  | _, _ => false

/-- An iteration of the tracer, together with where the kernel has the given task. There is
none when the kernel cannot report the stop of that task. -/
def watchedStep (R : Reporter ρ) (child : Pid) (s : Loop ρ × KernelPhase) (report : KernelReport) :
    Option (List Action × Loop ρ × KernelPhase) :=
  match if report.pid = child then s.2.next report.stop else some s.2,
    step R s.1 report.answers with
  | some phase, some (actions, t) => some (actions, t, phase)
  | _, _ => none

/-- What the next syscall stop of a task will be. -/
def KernelPhase.expected : KernelPhase → Option SyscallPhase
  | .user => some .entry
  | .inCall _ => some .exit
  | .dead => none

/-- The registry has an entry for the task exactly while the task lives, and in the phase
of its next syscall stop. -/
structure Tracks (child : Pid) (s : Loop ρ × KernelPhase) : Prop where
  registered : (s.1.tasks.find child).isSome = true ↔ s.2 ≠ .dead
  inPhase : ∀ task ∈ s.1.tasks.find child, some task.phase = s.2.expected

/-- At the event the parent, whose entry is given, is registered and the child outside the
kernel, or the child is dead already and the parent not registered. -/
def settles (phase : KernelPhase) (parent : Option Task) : Bool :=
  match phase with
  | .user => parent.isSome
  | .inCall _ => false
  | .dead => parent.isNone

/-- The stop leaves the phase of its task in step: the registers can be read at a syscall
stop, and it is not an exec event. -/
def followed (report : KernelReport) : Bool :=
  match report.stop with
  | .syscallEnter | .syscallExit => report.tracee.isOk
  | .event kind => kind ≠ ptraceEventExec || !report.message.isOk
  | _ => true

/-! ## One iteration -/

section Step

variable {s t : Loop ρ} {phase later : KernelPhase} {child : Pid} {report : KernelReport}
  {actions : List Action}

/-- What the stop that is reported calls for. -/
def KernelReport.effect (report : KernelReport) (s : Loop ρ) : Effect :=
  s.effectAt report.pid report.stop.status report.answers

/-- An iteration with a reported stop applies its effect. -/
theorem step_report_tasks (h : step R s report.answers = some (actions, t)) :
    t.tasks = (report.effect s).registry s.tasks report.pid := by
  obtain ⟨_, rfl⟩ := step_waited (resumeFailed_gone report.resumedIsGone) rfl h
  rfl

theorem watchedStep_eq (h : watchedStep R child (s, phase) report = some (actions, t, later)) :
    (if report.pid = child then phase.next report.stop else some phase) = some later ∧
      step R s report.answers = some (actions, t) := by
  unfold watchedStep at h
  split at h
  · rename_i phase' actions' t' hnext hstep
    cases h
    exact ⟨hnext, hstep⟩
  · cases h

/-- Only an event stop is classified as one. -/
theorem exists_event_of_kind {pid : Pid} {stop : KernelStop}
    (h : (classifyStop pid stop.status).kind = .ptraceEvent) :
    stop = .event (classifyStop pid stop.status).ptraceEvent := by
  obtain ⟨hevent, hne⟩ := ptraceEvent_of_kind h
  rw [hevent]
  cases stop with
  | event kind => rw [KernelStop.status, WaitStatus.event_ofStop]
  | syscallEnter => exact absurd (WaitStatus.event_ofStop _ _) hne
  | syscallExit => exact absurd (WaitStatus.event_ofStop _ _) hne
  | signal number => exact absurd (WaitStatus.event_ofStop _ _) hne
  | exited code =>
    rw [KernelStop.status, WaitStatus.ofExit] at hne
    omega
  | killed number =>
    rw [KernelStop.status, WaitStatus.ofSignal] at hne
    omega

/-- A stop at which a child is registered announces it. -/
theorem announcesChild_of_effect {task : Task} (h : (report.effect s).child = some (child, task)) :
    announcesChild child report = true := by
  obtain ⟨parent, message, _, hanswer, hkind, hannounces, hchild, _⟩ := child_effectOf h
  have hmessage : report.message = .ok message := hanswer
  have hstop := exists_event_of_kind hkind
  generalize (classifyStop report.pid report.stop.status).ptraceEvent = kind at hstop hannounces
  rw [announcesChild, hstop, hmessage, hchild]
  simpa using hannounces

/-- A stop that announces a child registers it, if its own task is registered. -/
theorem effect_of_announcesChild (h : announcesChild child report = true) :
    (report.effect s).child =
      (s.tasks.find report.pid).map fun parent => (child, childTask parent report.pid child) := by
  unfold announcesChild at h
  split at h
  · rename_i kind message hstop hmessage
    rw [Bool.and_eq_true, decide_eq_true_eq, decide_eq_true_eq] at h
    have hkind : kind ≠ 0 := by
      rintro rfl
      exact absurd h.1 (by decide)
    obtain ⟨hclass, hevent⟩ := kind_eventStop report.pid hkind
    rw [KernelReport.effect, Loop.effectAt, hstop, KernelStop.status, child_effectOf_ok hmessage,
      hclass, hevent, if_pos ⟨rfl, h.1⟩, classifyStop_pid, h.2]
  · cases h

/-- The entry of another task that is not announced stays as it is. -/
theorem find_of_other (hne : report.pid ≠ child) (honce : announcesChild child report = false)
    (h : step R s report.answers = some (actions, t)) :
    t.tasks.find child = s.tasks.find child := by
  rw [step_report_tasks h]
  apply find_effectOf_of_ne (Ne.symm hne)
  intro task heq
  rw [announcesChild_of_effect heq] at honce
  cases honce

theorem find_of_self (h : step R s report.answers = some (actions, t)) :
    t.tasks.find report.pid = (report.effect s).entryAfter (s.tasks.find report.pid) := by
  rw [step_report_tasks h]
  exact find_effectOf_self

/-- A task that is not registered is not registered by its own stops either. -/
theorem unregistered_step (honce : announcesChild child report = false)
    (hnone : s.tasks.find child = none) (h : step R s report.answers = some (actions, t)) :
    t.tasks.find child = none := by
  by_cases hpid : report.pid = child
  · subst hpid
    rw [find_of_self h, hnone, Effect.entryAfter, KernelReport.effect, Loop.effectAt, hnone]
    exact entryAfter_effectOf_none
  · rw [find_of_other hpid honce h, hnone]

theorem effect_syscall (hs : report.stop.isSyscall) :
    report.effect s = syscallEffect (s.tasks.find report.pid)
      (classifyStop report.pid report.stop.status) report.answers := by
  rw [KernelReport.effect, Loop.effectAt, effectOf, kind_of_isSyscall hs]

theorem entry_effect_signal {number : Nat} (hstop : report.stop = .signal number)
    (hnumber : isSignal number) : (report.effect s).entry = none := by
  have hlt : number < 128 := by
    simp only [isSignal, Bool.and_eq_true, decide_eq_true_eq] at hnumber
    omega
  rw [KernelReport.effect, Loop.effectAt, effectOf, hstop, KernelStop.status]
  rcases kind_signalStop report.pid hlt with hkind | hkind
  · rw [hkind]
  · rw [hkind]

theorem entry_effect_end (hstop : (∃ code, report.stop = .exited code) ∨
      ∃ number, report.stop = .killed number ∧ isSignal number) :
    (report.effect s).entry = some none := by
  rw [KernelReport.effect, Loop.effectAt, effectOf]
  rcases hstop with ⟨code, hstop⟩ | ⟨number, hstop, hnumber⟩
  · rw [hstop, KernelStop.status, classifyStop_exit]
    exact entry_endEffect _ _
  · simp only [isSignal, Bool.and_eq_true, decide_eq_true_eq] at hnumber
    rw [hstop, KernelStop.status, classifyStop_signaled report.pid (by omega) (by omega)]
    exact entry_endEffect _ _

/-- An exec event that can be read resets the phase, and any other event changes nothing. -/
theorem entry_effect_event {kind : Nat} {task : Task} (hstop : report.stop = .event kind)
    (hkind : isTracedEvent kind) (hfind : s.tasks.find report.pid = some task) :
    (report.effect s).entryAfter (some task) =
      if kind = ptraceEventExec ∧ report.message.isOk then some { task with phase := .entry }
      else some task := by
  have hne : kind ≠ 0 := by
    rintro rfl
    exact absurd hkind (by decide)
  obtain ⟨hclass, hevent⟩ := kind_eventStop report.pid hne
  rw [KernelReport.effect, Loop.effectAt, effectOf, hstop, KernelStop.status, hclass]
  dsimp only
  have hmessage : report.answers.message = report.message := rfl
  rw [eventEffect.eq_def, hmessage, hfind]
  cases report.message with
  | error code => exact (if_neg (by simp [Except.isOk, Except.toBool])).symm
  | ok message =>
    dsimp only
    rw [hevent]
    by_cases hexec : kind = ptraceEventExec
    · have hquiet : ¬ announces kind := by
        rw [hexec]
        decide
      rw [if_neg hquiet, if_pos hexec, if_pos ⟨hexec, rfl⟩]
      rfl
    · rw [if_neg (by simp [hexec] : ¬ (kind = ptraceEventExec ∧ _)), if_neg hexec]
      split <;> rfl

/-- As long as an entry is there for a task that lives, it is in the phase it should be. -/
theorem tracks_of_some {task : Task} (hfind : s.tasks.find child = some task)
    (hlive : phase ≠ .dead) : Tracks child (s, phase) ↔ some task.phase = phase.expected := by
  constructor
  · intro htracks
    exact htracks.inPhase task hfind
  · intro hphase
    refine ⟨?_, ?_⟩
    · rw [hfind]
      exact iff_of_true rfl hlive
    · intro task' hfind'
      rw [hfind] at hfind'
      cases hfind'
      exact hphase

theorem tracks_of_none (hfind : s.tasks.find child = none) :
    Tracks child (s, phase) ↔ phase = .dead := by
  constructor
  · intro htracks
    by_contra hlive
    have hsome := htracks.registered.mpr hlive
    rw [hfind] at hsome
    cases hsome
  · rintro rfl
    refine ⟨?_, ?_⟩
    · rw [hfind]
      simp
    · intro task hfind'
      rw [hfind] at hfind'
      cases hfind'

/-- A decoded stop flips the phase of its task. -/
theorem entry_decodeEffect {task : Task} {pid : Pid} {tracee : Tracee} {before after : SyscallPhase}
    (hphase : task.phase = before)
    (hflips : before = .entry ∧ after = .exit ∨ before = .exit ∧ after = .entry) :
    ∃ task', (decodeEffect task pid tracee).entry = some (some task') ∧ task'.phase = after := by
  rcases hflips with ⟨rfl, rfl⟩ | ⟨rfl, rfl⟩
  · rw [decodeEffect, hphase]
    exact ⟨_, rfl, rfl⟩
  · rw [decodeEffect, hphase]
    exact ⟨_, rfl, rfl⟩

/-- A syscall stop keeps the tracer in step with the kernel exactly when the registers can
be read. -/
theorem tracks_syscall {task : Task} {before after : SyscallPhase}
    (hs : report.stop.isSyscall) (hfind : s.tasks.find report.pid = some task)
    (hphase : task.phase = before) (hlater : later.expected = some after)
    (hflips : before = .entry ∧ after = .exit ∨ before = .exit ∧ after = .entry)
    (h : step R s report.answers = some (actions, t)) :
    Tracks report.pid (t, later) ↔ report.tracee.isOk = true := by
  have hlive : later ≠ .dead := by
    rintro rfl
    cases hlater
  have hentry := find_of_self h
  have htracee : report.answers.tracee = report.tracee := rfl
  rw [effect_syscall hs, hfind, syscallEffect.eq_def, htracee] at hentry
  cases htrace : report.tracee with
  | ok tracee =>
    rw [htrace, classifyStop_pid] at hentry
    dsimp only at hentry
    obtain ⟨task', heq, hphase'⟩ := @entry_decodeEffect task report.pid tracee before after hphase hflips
    rw [Effect.entryAfter, heq] at hentry
    refine iff_of_true ((tracks_of_some hentry hlive).mpr ?_) rfl
    rw [hphase', hlater]
  | error code =>
    rw [htrace] at hentry
    dsimp only at hentry
    refine iff_of_false ?_ Bool.false_ne_true
    by_cases hgone : code = esrch
    · rw [if_pos hgone] at hentry
      rw [tracks_of_none hentry]
      exact hlive
    · rw [if_neg hgone] at hentry
      rw [tracks_of_some hentry hlive, hphase, hlater]
      rcases hflips with ⟨rfl, rfl⟩ | ⟨rfl, rfl⟩ <;> simp

/-- An event keeps the tracer in step exactly when it is no exec event, or cannot be read. -/
theorem tracks_eventStop {kind : Nat} {task : Task} {reported : Bool}
    (hstop : report.stop = .event kind) (htraced : isTracedEvent kind)
    (hfind : s.tasks.find report.pid = some task) (hphase : task.phase = .exit)
    (h : step R s report.answers = some (actions, t)) :
    Tracks report.pid (t, .inCall reported) ↔
      ¬(kind = ptraceEventExec ∧ report.message.isOk = true) := by
  have hentry := find_of_self h
  rw [hfind, entry_effect_event hstop htraced hfind] at hentry
  by_cases hexec : kind = ptraceEventExec ∧ report.message.isOk = true
  · rw [if_pos hexec] at hentry
    rw [tracks_of_some hentry (by simp)]
    simp [hexec, KernelPhase.expected]
  · rw [if_neg hexec] at hentry
    rw [tracks_of_some hentry (by simp), hphase]
    exact iff_of_true rfl hexec

/-- While the tracer is in step with the kernel, a stop of the task keeps it so exactly when
the registers can be read and it is no exec event. -/
theorem tracks_step (htracks : Tracks report.pid (s, phase))
    (hnext : phase.next report.stop = some later)
    (h : step R s report.answers = some (actions, t)) :
    Tracks report.pid (t, later) ↔ followed report = true := by
  have hlive : phase ≠ .dead := by
    rintro rfl
    cases hstop : report.stop <;> rw [hstop] at hnext <;> cases hnext
  obtain ⟨task, hfind⟩ := Option.isSome_iff_exists.mp (htracks.registered.mpr hlive)
  have hphase := htracks.inPhase task hfind
  have hentry := find_of_self h
  rw [hfind] at hentry
  unfold followed
  cases hstop : report.stop with
  | syscallEnter =>
    rw [hstop] at hnext
    cases phase with
    | user =>
      cases hnext
      have hbefore : task.phase = .entry := Option.some.inj hphase
      exact tracks_syscall (by rw [hstop]; rfl) hfind hbefore rfl (Or.inl ⟨rfl, rfl⟩) h
    | inCall reported => cases reported <;> cases hnext
    | dead => exact absurd rfl hlive
  | syscallExit =>
    rw [hstop] at hnext
    cases phase with
    | user => cases hnext
    | inCall reported =>
      have huser : later = .user := by cases reported <;> exact (Option.some.inj hnext).symm
      have hbefore : task.phase = .exit := Option.some.inj hphase
      rw [huser]
      exact tracks_syscall (by rw [hstop]; rfl) hfind hbefore rfl (Or.inr ⟨rfl, rfl⟩) h
    | dead => exact absurd rfl hlive
  | event kind =>
    rw [hstop] at hnext
    cases phase with
    | user => cases hnext
    | inCall reported =>
      obtain ⟨htraced, rfl⟩ := next_event hnext
      have hbefore : task.phase = .exit := Option.some.inj hphase
      rw [tracks_eventStop hstop htraced hfind hbefore h]
      simp [imp_iff_not_or]
    | dead => exact absurd rfl hlive
  | signal number =>
    rw [hstop] at hnext
    cases phase with
    | user =>
      obtain ⟨hnumber, rfl⟩ := next_signal hnext
      rw [Effect.entryAfter, entry_effect_signal hstop hnumber] at hentry
      rw [tracks_of_some hentry (by simp)]
      exact iff_of_true hphase rfl
    | inCall reported => cases reported <;> cases hnext
    | dead => exact absurd rfl hlive
  | exited code =>
    rw [hstop] at hnext
    obtain ⟨rfl, _⟩ := next_end (Or.inl ⟨code, rfl⟩) hnext
    rw [Effect.entryAfter, entry_effect_end (Or.inl ⟨code, hstop⟩)] at hentry
    exact iff_of_true ((tracks_of_none hentry).mpr rfl) rfl
  | killed number =>
    rw [hstop] at hnext
    obtain ⟨rfl, hsignal⟩ := next_end (Or.inr ⟨number, rfl⟩) hnext
    rw [Effect.entryAfter,
      entry_effect_end (Or.inr ⟨number, hstop, hsignal number rfl⟩)] at hentry
    exact iff_of_true ((tracks_of_none hentry).mpr rfl) rfl

/-- The stop of another task changes nothing. -/
theorem tracks_other (hne : report.pid ≠ child) (honce : announcesChild child report = false)
    (h : step R s report.answers = some (actions, t)) :
    Tracks child (t, phase) ↔ Tracks child (s, phase) := by
  have hsame := find_of_other hne honce h
  constructor
  · rintro ⟨hregistered, hphase⟩
    exact ⟨by rw [← hregistered, hsame], by rwa [hsame] at hphase⟩
  · rintro ⟨hregistered, hphase⟩
    exact ⟨by rw [← hregistered, hsame], by rwa [hsame]⟩

end Step

/-! ## Whole runs -/

section Runs

variable {s t u : Loop ρ} {phase : KernelPhase} {child : Pid} {event : KernelReport}
  {front rest : List KernelReport} {outputs outputs' : List (List Action)}
  {actions : List Action} {v : Loop ρ × KernelPhase}

/-- Until it is announced a new task is not registered. -/
theorem unregistered_run (honce : ∀ report ∈ front, announcesChild child report = false)
    (hfresh : s.tasks.find child = none)
    (hrun : Machine.run (watchedStep R child) (s, .user) front = some (outputs, t, phase)) :
    t.tasks.find child = none := by
  have halong : Machine.Along (watchedStep R child)
      (fun _ report => announcesChild child report = false) (s, .user) front :=
    Machine.along_of_forall_mem fun report hmem _ => honce report hmem
  refine Machine.run_invariant_along (fun w => w.1.tasks.find child = none) _ ?_ hfresh halong hrun
  rintro ⟨w, phase₁⟩ report actions ⟨w', phase₂⟩ hnone hquiet hstep
  exact unregistered_step hquiet hnone (watchedStep_eq hstep).2

/-- At the event the tracer and the kernel agree on the child exactly in the settled cases. -/
theorem tracks_event (hannounced : announcesChild child event = true) (hother : event.pid ≠ child)
    (hnone : t.tasks.find child = none)
    (hevent : step R t event.answers = some (actions, u)) :
    Tracks child (u, phase) ↔ settles phase (t.tasks.find event.pid) = true := by
  have hfind : u.tasks.find child = (t.tasks.find event.pid).map fun parent =>
      childTask parent event.pid child := by
    rw [step_report_tasks hevent, find_registry_of_ne (Ne.symm hother),
      effect_of_announcesChild hannounced]
    cases t.tasks.find event.pid with
    | none => exact hnone
    | some parent => exact TaskRegistry.find_emplace_of_none hnone
  cases hparent : t.tasks.find event.pid with
  | none =>
    rw [hparent] at hfind
    rw [tracks_of_none hfind]
    cases phase <;> simp [settles]
  | some parent =>
    rw [hparent] at hfind
    cases phase with
    | user =>
      rw [tracks_of_some hfind (by simp)]
      exact iff_of_true rfl rfl
    | inCall reported =>
      rw [tracks_of_some hfind (by simp)]
      simp [settles, childTask, KernelPhase.expected]
    | dead =>
      refine iff_of_false ?_ Bool.false_ne_true
      intro htracks
      exact htracks.registered.mp (by rw [hfind]; rfl) rfl

/-- Take any run, from any state in which a child is not registered, in which the child is
announced once and the kernel reports its stops as its grammar allows, before and after
that. From its announcement on the registry has an entry for it exactly while it lives,
and in the phase of its next syscall stop, if and only if the event finds the parent
registered and the child outside the kernel, or the child dead and the parent not
registered, and no later stop of the child puts the phase out of step. -/
theorem registration_iff (R : Reporter ρ) (hfresh : s.tasks.find child = none)
    (hannounced : announcesChild child event = true) (hother : event.pid ≠ child)
    (honce : ∀ report ∈ front ++ rest, announcesChild child report = false)
    (hfront : Machine.run (watchedStep R child) (s, .user) front = some (outputs, t, phase))
    (hevent : watchedStep R child (t, phase) event = some (actions, u, phase))
    (hrest : Machine.run (watchedStep R child) (u, phase) rest = some (outputs', v)) :
    Machine.Always (watchedStep R child) (Tracks child) (u, phase) rest ↔
      settles phase (t.tasks.find event.pid) = true ∧
        ∀ report ∈ rest, report.pid = child → followed report = true := by
  obtain ⟨hbefore, hafter⟩ := List.forall_mem_append.mp honce
  have hnone := unregistered_run hbefore hfresh hfront
  have hstart : Tracks child (u, phase) ↔ settles phase (t.tasks.find event.pid) = true :=
    tracks_event hannounced hother hnone (watchedStep_eq hevent).2
  have hiff : Tracks child (u, phase) → (Machine.Always (watchedStep R child) (Tracks child)
      (u, phase) rest ↔ ∀ report ∈ rest, report.pid = child → followed report = true) := by
    intro htracks
    rw [← Machine.along_iff_forall_mem (C := fun report : KernelReport =>
      report.pid = child → followed report = true) hrest]
    apply Machine.always_iff_along (Tracks child) _ _ _ htracks hrest
    · rintro ⟨w, phase₁⟩ report actions ⟨w', phase₂⟩ hmem hw hfollowed hboth
      obtain ⟨hnext, hstep⟩ := watchedStep_eq hboth
      by_cases hpid : report.pid = child
      · subst hpid
        rw [if_pos rfl] at hnext
        exact (tracks_step hw hnext hstep).mpr (hfollowed rfl)
      · rw [if_neg hpid] at hnext
        cases hnext
        exact (tracks_other hpid (hafter report hmem) hstep).mpr hw
    · rintro ⟨w, phase₁⟩ report actions ⟨w', phase₂⟩ hmem hw hboth hnot htracks'
      obtain ⟨hnext, hstep⟩ := watchedStep_eq hboth
      apply hnot
      rintro rfl
      rw [if_pos rfl] at hnext
      exact (tracks_step hw hnext hstep).mp htracks'
  constructor
  · intro halways
    have htracks : Tracks child (u, phase) := halways.first
    exact ⟨hstart.mp htracks, (hiff htracks).mp halways⟩
  · rintro ⟨hsettled, hfollowed⟩
    exact (hiff (hstart.mpr hsettled)).mpr hfollowed

end Runs

/-! ## A fork -/

/-- Task 100 calls `fork`. -/
def forkEntry : KernelReport := { pid := 100, stop := .syscallEnter, tracee := .ok (stoppedIn 57) }

/-- The event of task 100 that announces task 101. -/
def forkEvent : KernelReport where
  pid := 100
  stop := .event ptraceEventFork
  message := .ok 101
  tracee := .error esrch

/-- The first stop of task 101. -/
def childStop : KernelReport := { pid := 101, stop := .signal sigStop, tracee := .error esrch }

def childEntry : KernelReport := { pid := 101, stop := .syscallEnter, tracee := .ok (stoppedIn 39) }

def childExited : KernelReport := { pid := 101, stop := .exited 0, tracee := .error esrch }

/-- The parent comes first. -/
theorem registration_parentFirst :
    ∃ t u v outputs actions outputs',
      Machine.run (watchedStep nullReporter 101) ((start nullReporter 100 ()).2, .user)
        [forkEntry] = some (outputs, t, .user) ∧
      watchedStep nullReporter 101 (t, .user) forkEvent = some (actions, u, .user) ∧
      Machine.run (watchedStep nullReporter 101) (u, .user) [childStop, childEntry, childExited] =
        some (outputs', v) ∧
      Machine.Always (watchedStep nullReporter 101) (Tracks 101) (u, .user)
        [childStop, childEntry, childExited] := by
  refine ⟨_, _, _, _, _, _, rfl, rfl, rfl, ?_⟩
  refine (@registration_iff _ (start nullReporter 100 ()).2 _ _ _ 101 forkEvent [forkEntry]
    [childStop, childEntry, childExited] _ _ _ _ nullReporter rfl rfl (by decide) (by decide) rfl
    rfl rfl).mpr ⟨?_, by decide⟩
  rfl

/-- The child comes first: its system call is not noticed, so that it is registered in the
wrong phase, or its end is not, so that it stays registered. -/
theorem registration_childFirst :
    (∃ t u outputs actions,
      Machine.run (watchedStep nullReporter 101) ((start nullReporter 100 ()).2, .user)
        [forkEntry, childStop, childEntry] = some (outputs, t, .inCall false) ∧
      watchedStep nullReporter 101 (t, .inCall false) forkEvent =
        some (actions, u, .inCall false) ∧
      ¬ Tracks 101 (u, .inCall false)) ∧
    ∃ t u outputs actions,
      Machine.run (watchedStep nullReporter 101) ((start nullReporter 100 ()).2, .user)
        [forkEntry, childStop, childExited] = some (outputs, t, .dead) ∧
      watchedStep nullReporter 101 (t, .dead) forkEvent = some (actions, u, .dead) ∧
      ¬ Tracks 101 (u, .dead) := by
  refine ⟨⟨_, _, _, _, rfl, rfl, ?_⟩, _, _, _, _, rfl, rfl, ?_⟩
  · intro htracks
    exact absurd (htracks.inPhase _ rfl) (by decide)
  · intro htracks
    exact htracks.registered.mp rfl rfl

end ExeCell.Trace
