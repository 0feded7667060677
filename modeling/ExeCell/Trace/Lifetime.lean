import ExeCell.Lib.Interleaving
import ExeCell.Trace.Stream

/-!
# The ends of the tasks

Every task that is announced should be seen to its end. The tracer returns as soon as the
root has ended, whatever other tasks there are, and it knows of a task only what `waitpid`
tells it: that the task was announced, that it ended, or that its registers could not be
read any more. `Mark` is one such piece of news; `seen_iff` says which lists of them mean
that every announcement is followed by one end.
-/

namespace ExeCell.Trace

open Report

/-- What an iteration learns about a task: that it is announced, has ended, or is gone from
the registry because its registers cannot be read any more. -/
inductive Mark where
  | announced
  | ended
  | vanished
  deriving DecidableEq

/-- The task is registered after this mark. -/
def Mark.registered : Mark → Bool
  | .announced => true
  | .ended | .vanished => false

/-- The marks that are reported. -/
def Mark.isReported : Mark → Bool
  | .announced | .ended => true
  | .vanished => false

/-! ## Lists of marks -/

section Marks

variable {marks : List Mark}

/-- One end follows each announcement. -/
def Seen (marks : List Mark) : Prop :=
  ∀ before later, marks = before ++ .announced :: later → later.count .ended = 1

/-- After a task has vanished its end is still reported. -/
def Reaped (marks : List Mark) : Prop :=
  ∀ before later, marks = before ++ .vanished :: later → .ended ∈ later

/-- After the end of a task that was announced its pid does not come up again. -/
def NotReused (marks : List Mark) : Prop :=
  ∀ before between later, marks = before ++ .announced :: (between ++ .ended :: later) →
    .announced ∉ later ∧ .ended ∉ later

/-- A task can vanish only while it is registered, that is, right after its announcement. -/
def Registered (marks : List Mark) : Prop :=
  ∀ before later, marks = before ++ .vanished :: later → before.getLast? = some .announced

/-- When the last mark is not an announcement and no task has vanished for good, an end
follows. -/
theorem ended_mem {later : List Mark}
    (hlast : (Mark.announced :: later).getLast? ≠ some .announced)
    (hreaped : ∀ before rest, later = before ++ .vanished :: rest → .ended ∈ rest) :
    .ended ∈ later := by
  obtain ⟨front, last, heq⟩ : ∃ front last, Mark.announced :: later = front ++ [last] :=
    (List.eq_nil_or_concat' _).resolve_left (List.cons_ne_nil _ _)
  cases last with
  | announced =>
    refine absurd ?_ hlast
    rw [heq, List.getLast?_concat]
  | ended =>
    have hmem : Mark.ended ∈ Mark.announced :: later := by
      rw [heq]
      exact List.mem_append_right _ List.mem_cons_self
    exact (List.mem_cons.mp hmem).resolve_left (by decide)
  | vanished =>
    cases front with
    | nil => cases heq
    | cons first front =>
      obtain ⟨_, rfl⟩ := List.cons.inj heq
      cases hreaped front [] rfl

theorem seen_iff (hregistered : Registered marks) :
    Seen marks ↔ marks.getLast? ≠ some .announced ∧ Reaped marks ∧ NotReused marks := by
  constructor
  · intro hseen
    refine ⟨?_, ?_, ?_⟩
    · intro hlast
      obtain ⟨before, rfl⟩ := List.getLast?_eq_some_iff.mp hlast
      have hcount := hseen before [] rfl
      cases hcount
    · rintro before later rfl
      obtain ⟨earlier, rfl⟩ := List.getLast?_eq_some_iff.mp (hregistered before later rfl)
      have hcount := hseen earlier (.vanished :: later) (by simp)
      rw [List.count_cons_of_ne (by decide)] at hcount
      exact List.count_pos_iff.mp (by omega)
    · rintro before between later rfl
      have hcount := hseen before (between ++ .ended :: later) rfl
      rw [List.count_append, List.count_cons_self] at hcount
      have hended : .ended ∉ later := List.count_eq_zero.mp (by omega)
      refine ⟨?_, hended⟩
      intro hannounced
      obtain ⟨first, second, rfl⟩ := List.append_of_mem hannounced
      have hsecond := hseen (before ++ .announced :: (between ++ .ended :: first)) second (by simp)
      apply hended
      apply List.mem_append_right
      apply List.mem_cons_of_mem
      exact List.count_pos_iff.mp (by omega)
  · rintro ⟨hlast, hreaped, hnotReused⟩ before later rfl
    have hended : .ended ∈ later := by
      apply ended_mem
      · rwa [List.getLast?_append_of_ne_nil _ (List.cons_ne_nil _ _)] at hlast
      · rintro between rest rfl
        exact hreaped (before ++ .announced :: between) rest (by simp)
    obtain ⟨between, rest, rfl, hfirst⟩ := List.eq_append_cons_of_mem hended
    have hlater := (hnotReused before between rest rfl).2
    rw [List.count_append, List.count_cons_self, List.count_eq_zero.mpr hfirst,
      List.count_eq_zero.mpr hlater]

theorem reaped_of_not_mem (h : .vanished ∉ marks) : Reaped marks := by
  rintro before later rfl
  exact absurd (List.mem_append_right _ List.mem_cons_self) h

/-- A list whose only end is its last mark. -/
theorem seen_concat_ended (h : .ended ∉ marks) : Seen (marks ++ [.ended]) := by
  intro before later heq
  induction later using List.reverseRecOn with
  | nil =>
    obtain ⟨_, hlast⟩ := List.append_inj' heq rfl
    cases hlast
  | append_singleton later last _ =>
    rw [← List.cons_append, ← List.append_assoc] at heq
    obtain ⟨rfl, hlast⟩ := List.append_inj' heq rfl
    obtain rfl := List.head_eq_of_cons_eq hlast
    have hnone : .ended ∉ later := fun hmem =>
      h (List.mem_append_right _ (List.mem_cons_of_mem _ hmem))
    rw [List.count_append, List.count_eq_zero.mpr hnone]
    rfl

theorem seen_filter : Seen (marks.filter Mark.isReported) ↔ Seen marks := by
  have hcount : ∀ later : List Mark, (later.filter Mark.isReported).count .ended = later.count .ended :=
    fun later => List.count_filter rfl
  constructor
  · rintro hseen before later rfl
    rw [← hcount]
    apply hseen (before.filter Mark.isReported)
    rw [List.filter_append, List.filter_cons_of_pos rfl]
  · intro hseen before later heq
    rw [← List.filterMap_eq_filter] at heq
    obtain ⟨front, mark, rest, rfl, hmark, _, rfl⟩ := Interleaving.exists_of_filterMap heq
    obtain ⟨rfl, _⟩ := Option.guard_eq_some_iff.mp hmark
    rw [List.filterMap_eq_filter, hcount]
    exact hseen front rest rfl

end Marks

/-! ## What an iteration learns -/

variable {ρ : Type} {R : Reporter ρ}

/-- The kernel says that there is no such task. -/
def noSuchTask (tracee : Except Errno Tracee) : Bool :=
  match tracee with
  | .error code => code = esrch
  | .ok _ => false

/-- What a stop tells about the task `pid`. -/
def stopMark (pid : Pid) (tasks : TaskRegistry) (stop : Stop) (answers : Answers) : Option Mark :=
  match stop.kind with
  | .exited | .signaled => if stop.pid = pid then some .ended else none
  | .ptraceEvent =>
    match answers.message, tasks.find stop.pid with
    | .ok message, some _ =>
      if announces stop.ptraceEvent ∧ toInt32 message = pid then some .announced else none
    | _, _ => none
  | .syscall =>
    if stop.pid = pid ∧ (tasks.find pid).isSome ∧ noSuchTask answers.tracee then some .vanished
    else none
  | .signal | .groupStop | .unknown => none

/-- What an iteration learns about the task `pid`. -/
def markOf (pid : Pid) (s : Loop ρ) (answers : Answers) : Option Mark :=
  match answers.wait with
  | .error _ => none
  | .ok (stopped, status) => stopMark pid s.tasks (classifyStop stopped status) answers

/-- What a run learns about the task `pid`, in order. -/
def marksOf (R : Reporter ρ) (pid : Pid) : Loop ρ → List Answers → List Mark
  | _, [] => []
  | s, answers :: inputs =>
    match step R s answers with
    | none => []
    | some (_, t) => (markOf pid s answers).toList ++ marksOf R pid t inputs

/-- What an event says about the task `pid`. -/
def payloadMark (pid : Pid) : Payload → Option Mark
  | .processSpawned child _ => if child = pid then some .announced else none
  | .processExited ended _ _ => if ended = pid then some .ended else none
  | _ => none

section Stops

variable {root pid : Pid} {tasks : TaskRegistry} {stop : Stop} {answers : Answers}

theorem payloadMark_of_not_isLifecycle {payload : Payload} (h : payload.isLifecycle = false) :
    payloadMark pid payload = none := by
  cases payload <;> first | rfl | cases h

theorem payloads_endEffect_marks (hgoesOn : (endEffect root stop).returned = none) :
    (endEffect root stop).payloads.filterMap (payloadMark pid) =
      (if stop.pid = pid then some Mark.ended else none).toList.filter Mark.isReported := by
  unfold endEffect at hgoesOn ⊢
  by_cases heq : stop.pid = root
  · rw [if_pos heq] at hgoesOn
    cases hgoesOn
  · rw [if_neg heq]
    by_cases hpid : stop.pid = pid
    · rw [if_pos hpid]
      exact List.filterMap_cons_some (if_pos hpid)
    · rw [if_neg hpid]
      exact List.filterMap_cons_none (if_neg hpid)

theorem payloads_eventEffect_marks (hkind : stop.kind = .ptraceEvent) :
    (eventEffect (tasks.find stop.pid) stop answers).payloads.filterMap (payloadMark pid) =
      (stopMark pid tasks stop answers).toList.filter Mark.isReported := by
  rw [eventEffect.eq_def, stopMark, hkind]
  dsimp only
  cases answers.message with
  | error code => rfl
  | ok message =>
    cases tasks.find stop.pid with
    | none => rfl
    | some parent =>
      dsimp only
      generalize toInt32 message = child
      by_cases hannounces : announces stop.ptraceEvent
      · rw [if_pos hannounces]
        by_cases hchild : child = pid
        · rw [if_pos ⟨hannounces, hchild⟩]
          exact List.filterMap_cons_some (if_pos hchild)
        · rw [if_neg fun hboth => hchild hboth.2]
          exact List.filterMap_cons_none (if_neg hchild)
      · have hneither : ¬ (announces stop.ptraceEvent ∧ child = pid) := fun hboth =>
          hannounces hboth.1
        rw [if_neg hannounces, if_neg hneither]
        split <;> rfl

theorem payloads_syscallEffect_marks :
    (syscallEffect (tasks.find stop.pid) stop answers).payloads.filterMap (payloadMark pid) = [] := by
  unfold syscallEffect
  split
  · rfl
  · split <;> rfl
  · rcases payloads_decodeEffect with hnone | ⟨payload, hmade, hone⟩
    · rw [hnone]
      rfl
    · rw [hone]
      exact List.filterMap_cons_none (payloadMark_of_not_isLifecycle (Payload.isLifecycle_of_isDecoded hmade))

/-- The events of a stop say what the stop tells. -/
theorem payloads_marks
    (hgoesOn : (effectOf root (tasks.find stop.pid) stop answers).returned = none) :
    (effectOf root (tasks.find stop.pid) stop answers).payloads.filterMap (payloadMark pid) =
      (stopMark pid tasks stop answers).toList.filter Mark.isReported := by
  unfold effectOf at hgoesOn ⊢
  cases hkind : stop.kind with
  | exited =>
    rw [hkind] at hgoesOn
    rw [stopMark, hkind]
    exact payloads_endEffect_marks hgoesOn
  | signaled =>
    rw [hkind] at hgoesOn
    rw [stopMark, hkind]
    exact payloads_endEffect_marks hgoesOn
  | ptraceEvent => exact payloads_eventEffect_marks hkind
  | syscall =>
    refine payloads_syscallEffect_marks.trans ?_
    rw [stopMark, hkind]
    dsimp only
    split <;> rfl
  | signal =>
    rw [stopMark, hkind]
    rfl
  | groupStop =>
    rw [stopMark, hkind]
    rfl
  | unknown =>
    rw [stopMark, hkind]
    rfl

/-- A stop that registers no child touches only the entry of its own task. -/
theorem find_registry_childless {effect : Effect} {stopped : Pid} (h : effect.child = none) :
    (effect.registry tasks stopped).find pid =
      if stopped = pid then effect.entryAfter (tasks.find pid) else tasks.find pid := by
  by_cases hpid : stopped = pid
  · subst hpid
    rw [if_pos rfl]
    exact find_registry_self fun hchild => absurd h hchild
  · rw [if_neg hpid, find_registry_of_ne (Ne.symm hpid), h]

theorem isSome_registry_of_none {effect : Effect} (hchild : effect.child = none)
    (hentry : effect.entry = none) :
    ((effect.registry tasks stop.pid).find pid).isSome = (tasks.find pid).isSome := by
  rw [find_registry_childless hchild, Effect.entryAfter, hentry]
  split <;> rfl

theorem isSome_registry_of_some {effect : Effect} {task : Task} (hchild : effect.child = none)
    (hentry : effect.entry = some (some task)) (hsome : (tasks.find stop.pid).isSome = true) :
    ((effect.registry tasks stop.pid).find pid).isSome = (tasks.find pid).isSome := by
  rw [find_registry_childless hchild, Effect.entryAfter, hentry]
  split
  · rename_i heq
    rw [← heq, hsome]
    rfl
  · rfl

theorem isSome_registry_of_erased {effect : Effect} (hchild : effect.child = none)
    (hentry : effect.entry = some none) :
    ((effect.registry tasks stop.pid).find pid).isSome =
      if stop.pid = pid then false else (tasks.find pid).isSome := by
  rw [find_registry_childless hchild, Effect.entryAfter, hentry]
  split <;> rfl

theorem registered_endEffect :
    (((endEffect root stop).registry tasks stop.pid).find pid).isSome =
      ((if stop.pid = pid then some Mark.ended else none).map Mark.registered).getD
        (tasks.find pid).isSome := by
  rw [isSome_registry_of_erased (child_endEffect ..) (entry_endEffect ..)]
  split <;> rfl

theorem registered_eventEffect (hkind : stop.kind = .ptraceEvent) :
    (((eventEffect (tasks.find stop.pid) stop answers).registry tasks stop.pid).find pid).isSome =
      ((stopMark pid tasks stop answers).map Mark.registered).getD (tasks.find pid).isSome := by
  rw [eventEffect.eq_def, stopMark, hkind]
  dsimp only
  cases answers.message with
  | error code => exact isSome_registry_of_none rfl rfl
  | ok message =>
    cases hparent : tasks.find stop.pid with
    | none => exact isSome_registry_of_none rfl rfl
    | some parent =>
      dsimp only
      generalize toInt32 message = child
      by_cases hannounces : announces stop.ptraceEvent
      · rw [if_pos hannounces]
        refine (congrArg Option.isSome (TaskRegistry.find_emplace ..)).trans ?_
        by_cases hchild : child = pid
        · rw [if_pos hchild, if_pos ⟨hannounces, hchild⟩, Option.isSome_or]
          exact Bool.or_true _
        · rw [if_neg hchild, if_neg fun hboth => hchild hboth.2]
          rfl
      · have hneither : ¬ (announces stop.ptraceEvent ∧ child = pid) := fun hboth =>
          hannounces hboth.1
        rw [if_neg hannounces, if_neg hneither]
        split
        · exact isSome_registry_of_some rfl rfl (by rw [hparent]; rfl)
        · exact isSome_registry_of_none rfl rfl

theorem registered_syscallEffect (hkind : stop.kind = .syscall) :
    (((syscallEffect (tasks.find stop.pid) stop answers).registry tasks stop.pid).find pid).isSome =
      ((stopMark pid tasks stop answers).map Mark.registered).getD (tasks.find pid).isSome := by
  rw [syscallEffect.eq_def, stopMark, hkind]
  dsimp only
  cases hfind : tasks.find stop.pid with
  | none =>
    have hquiet : ¬ (stop.pid = pid ∧ (tasks.find pid).isSome = true ∧
        noSuchTask answers.tracee = true) := by
      rintro ⟨rfl, hsome, _⟩
      rw [hfind] at hsome
      cases hsome
    rw [if_neg hquiet]
    exact isSome_registry_of_none rfl rfl
  | some task =>
    cases htracee : answers.tracee with
    | error code =>
      dsimp only
      by_cases hgone : code = esrch
      · rw [if_pos hgone, isSome_registry_of_erased rfl rfl]
        by_cases hpid : stop.pid = pid
        · rw [if_pos hpid, if_pos ⟨hpid, by rw [← hpid, hfind]; rfl, decide_eq_true hgone⟩]
          rfl
        · rw [if_neg hpid, if_neg fun hall => hpid hall.1]
          rfl
      · rw [if_neg hgone, if_neg fun hall => hgone (of_decide_eq_true hall.2.2)]
        exact isSome_registry_of_none rfl rfl
    | ok tracee =>
      obtain ⟨hchild, task', hentry⟩ := decodeEffect_keeps task stop.pid tracee
      rw [if_neg fun hall => Bool.false_ne_true hall.2.2]
      exact isSome_registry_of_some hchild hentry (by rw [hfind]; rfl)

/-- Whether a task is registered follows from what the stop tells about it. -/
theorem registered_marks :
    (((effectOf root (tasks.find stop.pid) stop answers).registry tasks stop.pid).find pid).isSome =
      ((stopMark pid tasks stop answers).map Mark.registered).getD (tasks.find pid).isSome := by
  unfold effectOf
  cases hkind : stop.kind with
  | exited =>
    rw [stopMark, hkind]
    exact registered_endEffect
  | signaled =>
    rw [stopMark, hkind]
    exact registered_endEffect
  | ptraceEvent => exact registered_eventEffect hkind
  | syscall => exact registered_syscallEffect hkind
  | signal =>
    rw [stopMark, hkind]
    exact isSome_registry_of_none rfl rfl
  | groupStop =>
    rw [stopMark, hkind]
    exact isSome_registry_of_none rfl rfl
  | unknown =>
    rw [stopMark, hkind]
    exact isSome_registry_of_none rfl rfl

theorem registered_of_vanished (h : stopMark pid tasks stop answers = some .vanished) :
    (tasks.find pid).isSome = true := by
  unfold stopMark at h
  grind

theorem ended_of_stopMark (h : stopMark pid tasks stop answers = some .ended) :
    stop.pid = pid ∧ (stop.kind = .exited ∨ stop.kind = .signaled) := by
  unfold stopMark at h
  grind

end Stops

/-! ## Whole runs -/

/-- What an event says about the task `pid`. -/
def eventMark (pid : Pid) (event : Event) : Option Mark := payloadMark pid event.payload

/-- The task is registered after these marks, if `first` says whether it was before. -/
def registeredAfter (first : Bool) (marks : List Mark) : Bool :=
  (marks.getLast?.map Mark.registered).getD first

theorem registeredAfter_append (first : Bool) (marks marks' : List Mark) :
    registeredAfter first (marks ++ marks') = registeredAfter (registeredAfter first marks) marks' := by
  cases marks' with
  | nil =>
    rw [List.append_nil]
    rfl
  | cons mark marks' =>
    unfold registeredAfter
    rw [List.getLast?_append_of_ne_nil _ (List.cons_ne_nil _ _)]
    rw [List.getLast?_eq_getLast_of_ne_nil (List.cons_ne_nil mark marks')]
    rfl

theorem registeredAfter_false {marks : List Mark} :
    registeredAfter false marks = true ↔ marks.getLast? = some .announced := by
  unfold registeredAfter
  cases marks.getLast? with
  | none => simp
  | some mark => cases mark <;> simp [Mark.registered]

section Runs

variable {s t : Loop ρ} {pid : Pid} {answers : Answers} {actions : List Action}
  {inputs : List Answers} {outputs : List (List Action)}

theorem eventMark_eventsFrom (first : Nat) (stopped : Pid) (payloads : List Payload) :
    (eventsFrom first stopped payloads).filterMap (eventMark pid) =
      payloads.filterMap (payloadMark pid) := by
  have hmap : ((eventsFrom first stopped payloads).map (·.payload)).filterMap (payloadMark pid) =
      (eventsFrom first stopped payloads).filterMap (eventMark pid) := List.filterMap_map
  rw [← hmap, payload_eventsFrom]

/-- The events of an iteration say what it learns, and so does the registry. -/
theorem mark_step (h : step R s answers = some (actions, t)) (ht : t.returned = none) :
    (reported actions).filterMap (eventMark pid) =
        (markOf pid s answers).toList.filter Mark.isReported ∧
      (t.tasks.find pid).isSome =
        registeredAfter (s.tasks.find pid).isSome (markOf pid s answers).toList := by
  obtain ⟨_, _, rfl⟩ | ⟨stopped, status, _, hwait, hevents, rfl⟩ := reported_step h
  · cases ht
  · have hmark : markOf pid s answers =
        stopMark pid s.tasks (classifyStop stopped status) answers := by
      rw [markOf, hwait]
    rw [apply_returned, Option.or_eq_none_iff] at ht
    have hpayloads := @payloads_marks s.rootPid pid s.tasks (classifyStop stopped status) answers
    have hregistered := @registered_marks s.rootPid pid s.tasks (classifyStop stopped status) answers
    rw [classifyStop_pid] at hpayloads hregistered
    rw [hevents, eventMark_eventsFrom, hmark, apply_tasks]
    refine ⟨hpayloads ht.1, hregistered.trans ?_⟩
    cases stopMark pid s.tasks (classifyStop stopped status) answers <;> rfl

theorem marks_run (h : Machine.run (step R) s inputs = some (outputs, t)) (ht : t.returned = none) :
    (reported outputs.flatten).filterMap (eventMark pid) =
        (marksOf R pid s inputs).filter Mark.isReported ∧
      (t.tasks.find pid).isSome =
        registeredAfter (s.tasks.find pid).isSome (marksOf R pid s inputs) := by
  induction inputs generalizing s outputs with
  | nil =>
    cases h
    exact ⟨rfl, rfl⟩
  | cons answers inputs ih =>
    obtain ⟨actions, s', later, hstep, hrest, rfl⟩ := Machine.run_cons.mp h
    obtain ⟨hnow, hregistered⟩ := @mark_step _ _ _ _ pid _ _ hstep (returned_of_run hrest ht)
    obtain ⟨hlater, hlast⟩ := ih hrest
    rw [marksOf, hstep, List.flatten_cons, reported_append, List.filterMap_append, hnow, hlater,
      List.filter_append, registeredAfter_append, ← hregistered]
    exact ⟨rfl, hlast⟩

/-- A task vanishes only while it is registered. -/
theorem registeredAfter_of_vanished (h : Machine.run (step R) s inputs = some (outputs, t))
    (ht : t.returned = none) {before later : List Mark}
    (hmarks : marksOf R pid s inputs = before ++ .vanished :: later) :
    registeredAfter (s.tasks.find pid).isSome before = true := by
  induction inputs generalizing s outputs before with
  | nil =>
    have hlength := congrArg List.length hmarks
    rw [List.length_append] at hlength
    cases hlength
  | cons answers inputs ih =>
    obtain ⟨actions, s', _, hstep, hrest, rfl⟩ := Machine.run_cons.mp h
    obtain ⟨_, hregistered⟩ := @mark_step _ _ _ _ pid _ _ hstep (returned_of_run hrest ht)
    rw [marksOf, hstep] at hmarks
    cases hmark : markOf pid s answers with
    | none =>
      rw [hmark] at hmarks hregistered
      have hbefore := ih hrest hmarks
      rwa [hregistered] at hbefore
    | some mark =>
      rw [hmark] at hmarks hregistered
      cases before with
      | nil =>
        obtain ⟨rfl, _⟩ := List.cons.inj hmarks
        unfold markOf at hmark
        split at hmark
        · cases hmark
        · exact registered_of_vanished hmark
      | cons first before =>
        obtain ⟨rfl, hrest'⟩ := List.cons.inj hmarks
        have hbefore := ih hrest hrest'
        rw [hregistered, ← registeredAfter_append] at hbefore
        exact hbefore

/-- The end of the root is learned only when the tracer returns. -/
theorem ended_root_step (h : step R s answers = some (actions, t)) (ht : t.returned = none) :
    markOf s.rootPid s answers ≠ some .ended := by
  intro hmark
  obtain ⟨_, _, rfl⟩ | ⟨stopped, status, hresumed, hwait, _, _⟩ := reported_step h
  · cases ht
  · rw [markOf, hwait] at hmark
    obtain ⟨hroot, hkind⟩ := ended_of_stopMark hmark
    rw [classifyStop_pid] at hroot
    have hends : RootEnds s answers status := ⟨hresumed, hroot ▸ hwait, (classifyStop_ended hkind).2.1⟩
    obtain ⟨_, _, _, _, _, hreturned⟩ | ⟨hnone, _⟩ := finished_step h
    · rw [ht] at hreturned
      cases hreturned
    · exact hnone status hends

theorem ended_root_run (h : Machine.run (step R) s inputs = some (outputs, t))
    (ht : t.returned = none) : .ended ∉ marksOf R s.rootPid s inputs := by
  induction inputs generalizing s outputs with
  | nil => exact List.not_mem_nil
  | cons answers inputs ih =>
    obtain ⟨actions, s', _, hstep, hrest, rfl⟩ := Machine.run_cons.mp h
    rw [marksOf, hstep, List.mem_append, not_or, Option.mem_toList]
    refine ⟨ended_root_step hstep (returned_of_run hrest ht), ?_⟩
    rw [← rootPid_step hstep]
    exact ih hrest

end Runs

/-! ## Every task is seen to its end -/

def isExitOf (pid : Pid) : Payload → Bool
  | .processExited ended _ _ => ended = pid
  | _ => false

/-- Every announcement of a task is followed by one `ProcessExited` for it. -/
def SeenToEnd (events : List Event) : Prop :=
  ∀ front event rest pid parent, events = front ++ event :: rest →
    event.payload = .processSpawned pid parent → rest.countP (isExitOf pid ·.payload) = 1

theorem count_ended {pid : Pid} (events : List Event) :
    (events.filterMap (eventMark pid)).count .ended = events.countP (isExitOf pid ·.payload) := by
  unfold List.count
  rw [List.countP_filterMap]
  apply List.countP_congr
  intro event _
  unfold eventMark payloadMark isExitOf
  cases event.payload <;> grind

theorem spawned_of_eventMark {pid : Pid} {event : Event} (h : eventMark pid event = some .announced) :
    ∃ parent, event.payload = .processSpawned pid parent := by
  unfold eventMark payloadMark at h
  grind

theorem seenToEnd_iff_seen {events : List Event} :
    SeenToEnd events ↔ ∀ pid, Seen (events.filterMap (eventMark pid)) := by
  constructor
  · intro hseen pid before later heq
    obtain ⟨front, event, rest, rfl, hevent, _, rfl⟩ := Interleaving.exists_of_filterMap heq
    obtain ⟨parent, hspawned⟩ := spawned_of_eventMark hevent
    rw [count_ended]
    exact hseen front event rest pid parent rfl hspawned
  · rintro hseen front event rest pid parent rfl hspawned
    rw [← count_ended]
    have hevent : eventMark pid event = some .announced := by
      rw [eventMark, hspawned]
      exact if_pos rfl
    apply hseen pid (front.filterMap (eventMark pid))
    rw [List.filterMap_append, List.filterMap_cons_some hevent]

section Seen

variable {root : Pid} {reporter : ρ} {front : List Answers} {last : Answers} {s t : Loop ρ}
  {outputs : List (List Action)} {actions : List Action}

/-- What the events of a run to the end of the root say about a task. -/
theorem marks_stream (pid : Pid)
    (hfront : Machine.run (step R) (start R root reporter).2 front = some (outputs, s))
    (hlast : step R s last = some (actions, t))
    (hfinished : ∃ event ∈ reported actions, event.payload.isFinished = true) :
    (stream R root reporter (outputs ++ [actions])).filterMap (eventMark pid) =
      (marksOf R pid (start R root reporter).2 front).filter Mark.isReported ++
        if root = pid then [.ended] else [] := by
  have hroot : s.rootPid = root := rootPid_run hfront
  obtain ⟨_, result, signaled, _, hevents, _⟩ | ⟨_, hquiet⟩ := finished_step hlast
  · obtain ⟨hmarks, _⟩ := @marks_run _ _ _ _ pid _ _ hfront (step_cases hlast).1
    rw [stream, List.flatten_append, List.flatten_singleton, reported_append, reported_append,
      reported_start, List.filterMap_append, List.filterMap_append, hmarks, hevents,
      eventMark_eventsFrom, hroot]
    have hfinal : (finalPayloads root result signaled).filterMap (payloadMark pid) =
        if root = pid then [.ended] else [] := by
      by_cases hpid : root = pid
      · rw [if_pos hpid]
        exact List.filterMap_cons_some (if_pos hpid)
      · rw [if_neg hpid]
        exact List.filterMap_cons_none (if_neg hpid)
    rw [hfinal]
    rfl
  · obtain ⟨event, hmem, hevent⟩ := hfinished
    rw [hquiet event hmem] at hevent
    cases hevent

/-- Take any run that ends with `TraceFinished`. Each task that is announced in it has exactly
one `ProcessExited` afterwards if and only if no task but the root is registered when the end
of the root is reported, the end of each task that has vanished was reported before, and no
pid comes up again after the task announced under it has ended. -/
theorem seenToEnd_iff (R : Reporter ρ)
    (hfront : Machine.run (step R) (start R root reporter).2 front = some (outputs, s))
    (hlast : step R s last = some (actions, t))
    (hfinished : ∃ event ∈ reported actions, event.payload.isFinished = true) :
    SeenToEnd (stream R root reporter (outputs ++ [actions])) ↔
      ∀ pid, pid ≠ root → s.tasks.find pid = none ∧
        Reaped (marksOf R pid (start R root reporter).2 front) ∧
        NotReused (marksOf R pid (start R root reporter).2 front) := by
  have hreturned : s.returned = none := (step_cases hlast).1
  have hroot : Seen ((stream R root reporter (outputs ++ [actions])).filterMap (eventMark root)) := by
    rw [marks_stream root hfront hlast hfinished, if_pos rfl]
    apply seen_concat_ended
    intro hmem
    exact ended_root_run hfront hreturned (List.mem_of_mem_filter hmem)
  have hother : ∀ pid, pid ≠ root →
      (Seen ((stream R root reporter (outputs ++ [actions])).filterMap (eventMark pid)) ↔
        s.tasks.find pid = none ∧ Reaped (marksOf R pid (start R root reporter).2 front) ∧
          NotReused (marksOf R pid (start R root reporter).2 front)) := by
    intro pid hpid
    have hnone := (start_find R root reporter).2 pid hpid
    have hregistered : Registered (marksOf R pid (start R root reporter).2 front) := by
      intro before later heq
      have hafter := registeredAfter_of_vanished hfront hreturned heq
      rw [hnone] at hafter
      exact registeredAfter_false.mp hafter
    have hgone : s.tasks.find pid = none ↔
        (marksOf R pid (start R root reporter).2 front).getLast? ≠ some .announced := by
      obtain ⟨_, hafter⟩ := @marks_run _ _ _ _ pid _ _ hfront hreturned
      rw [hnone] at hafter
      rw [← Option.not_isSome_iff_eq_none, hafter]
      exact not_congr registeredAfter_false
    rw [marks_stream pid hfront hlast hfinished, if_neg (Ne.symm hpid), List.append_nil, seen_filter,
      seen_iff hregistered, hgone]
  rw [seenToEnd_iff_seen]
  constructor
  · intro hseen pid hpid
    exact (hother pid hpid).mp (hseen pid)
  · intro hsettled pid
    by_cases hpid : pid = root
    · rw [hpid]
      exact hroot
    · exact (hother pid hpid).mpr (hsettled pid hpid)

end Seen

/-! ## A child and the root -/

/-- Task 100 forks task 101. -/
def forkAnswers : List Answers :=
  [.call 100 57 0, .forked 100 101, .signaled 101 sigStop, .call 100 57 101]

/-- A task enters `exit_group`. -/
def exitGroup (pid : Pid) : Answers := .call pid 231 0

theorem marksOf_eq_nil {pid : Pid} {inputs : List Answers} {s : Loop ρ}
    (h : ∀ answers ∈ inputs, ∀ s : Loop ρ, markOf pid s answers = none) :
    marksOf R pid s inputs = [] := by
  induction inputs generalizing s with
  | nil => rfl
  | cons answers inputs ih =>
    obtain ⟨hfirst, hlater⟩ := List.forall_mem_cons.mp h
    rw [marksOf]
    split
    · rfl
    · rw [hfirst s, ih hlater]
      rfl

/-- A task that can be read has not vanished. -/
theorem markOf_call (pid task : Pid) (number rax : Nat) (s : Loop ρ) :
    markOf pid s (.call task number rax) = none := by
  unfold markOf Answers.call stopMark
  dsimp only
  rw [kind_syscallStop]
  exact if_neg fun h => Bool.false_ne_true h.2.2

theorem markOf_forked {pid : Pid} {child : Nat} (h : toInt32 child ≠ pid) (task : Pid)
    (s : Loop ρ) : markOf pid s (.forked task child) = none := by
  unfold markOf Answers.forked stopMark
  dsimp only
  rw [(kind_eventStop task (by decide)).1]
  dsimp only
  split
  · rename_i hmessage _
    cases hmessage
    exact if_neg fun hboth => h hboth.2
  · rfl

theorem markOf_exited {pid task : Pid} (h : task ≠ pid) (code : Nat) (s : Loop ρ) :
    markOf pid s (.exited task code) = none := by
  unfold markOf Answers.exited stopMark
  dsimp only
  rw [classifyStop_exit]
  exact if_neg h

theorem notReused_pair : NotReused [.announced, .ended] := by
  intro before between later heq
  have hlength := congrArg List.length heq
  simp only [List.length_cons, List.length_nil, List.length_append] at hlength
  have hlater : later = [] := List.length_eq_zero_iff.mp (by omega)
  rw [hlater]
  exact ⟨List.not_mem_nil, List.not_mem_nil⟩

def childFirst : List Answers :=
  forkAnswers ++ [exitGroup 101, .exited 101 0, exitGroup 100]

/-- The child ends before the root. -/
theorem seenToEnd_childFirst :
    ∃ outputs s actions t,
      Machine.run (step nullReporter) (start nullReporter 100 ()).2 childFirst =
        some (outputs, s) ∧
      step nullReporter s (.exited 100 0) = some (actions, t) ∧
      SeenToEnd (stream nullReporter 100 () (outputs ++ [actions])) := by
  refine ⟨_, _, _, _, rfl, rfl, ?_⟩
  refine (@seenToEnd_iff _ 100 () childFirst (.exited 100 0) _ _ _ _ nullReporter
    rfl rfl ⟨_, List.mem_cons_of_mem _ List.mem_cons_self, rfl⟩).mpr ?_
  intro pid hpid
  by_cases hchild : 101 = pid
  · subst hchild
    exact ⟨rfl, reaped_of_not_mem (by decide), notReused_pair⟩
  · have hmessage : toInt32 101 ≠ pid := hchild
    have hmarks : marksOf nullReporter pid (start nullReporter 100 ()).2 childFirst = [] := by
      apply marksOf_eq_nil
      simp only [childFirst, forkAnswers, exitGroup, List.cons_append, List.nil_append,
        List.forall_mem_cons]
      exact ⟨markOf_call _ _ _ _, markOf_forked hmessage _, fun _ => rfl, markOf_call _ _ _ _,
        markOf_call _ _ _ _, markOf_exited hchild _, markOf_call _ _ _ _, nofun⟩
    obtain ⟨_, hregistered⟩ := @marks_run _ nullReporter (start nullReporter 100 ()).2 _ pid
      childFirst _ rfl rfl
    rw [hmarks, (start_find nullReporter 100 ()).2 pid hpid] at hregistered
    rw [hmarks]
    refine ⟨?_, reaped_of_not_mem List.not_mem_nil, ?_⟩
    · exact Option.isNone_iff_eq_none.mp (Option.isSome_eq_false_iff.mp hregistered)
    · intro before between later heq
      have hlength := congrArg List.length heq
      rw [List.length_append] at hlength
      cases hlength

/-- The child outlives the root: its end is not in the trace. -/
theorem not_seenToEnd_rootFirst :
    ∃ outputs s actions t,
      Machine.run (step nullReporter) (start nullReporter 100 ()).2
        (forkAnswers ++ [exitGroup 100]) = some (outputs, s) ∧
      step nullReporter s (.exited 100 0) = some (actions, t) ∧
      (∃ event ∈ reported actions, event.payload.isFinished = true) ∧
      ¬ SeenToEnd (stream nullReporter 100 () (outputs ++ [actions])) := by
  refine ⟨_, _, _, _, rfl, rfl, ⟨_, List.mem_cons_of_mem _ List.mem_cons_self, rfl⟩, ?_⟩
  intro hseen
  have hcount := hseen [_] _ _ 101 100 rfl rfl
  exact absurd hcount (by decide)

end ExeCell.Trace
