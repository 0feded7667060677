import ExeCell.Lib.Quoted
import ExeCell.Package.Artifacts
import ExeCell.Package.StorageEvents

/-!
# The events of two scans

The events that `scan` stores are those of the calls of `run_one`, one after another, between
fixed ones. A call that comes as far as its sandbox leaves the path of its snapshot in them,
and the standard error with the lines of the tracer, so that two scans of targets that do the
same store the same only when the host gives them the same (`same_events_iff`).
-/

namespace ExeCell.Package

open Sandbox (Captured attestation traceKind traceLine)
open Trace (startedEvent tracingNotice)
open Storage (History compare lastStored cString)

/-! ## What is stored -/

/-- The event strings that a scan hands to `store`; an event about its artifacts comes behind
them. -/
def storedEvents {options : PackageOptions} (host : ScanHost options) (final : Result) : List Text :=
  if host.artifactsWritten then final.events else final.events.dropLast

/-- `dynamic_fingerprint`. -/
def dynamicFingerprint (events : List Text) : Text := fingerprint (jsonObjectArray events)

/-- The events as they are handed over. -/
def handedEvents (name : Text) (events : List Text) : List Storage.Event :=
  events.map fun event =>
    { category := "observation".toList
      action := "event".toList
      subject := name
      detail := event
      dynamic := true }

/-- The steps have the call of `observe`. -/
def Observes (steps : List ScanStep) : Prop :=
  ∃ root tasks, ScanStep.observe root tasks ∈ steps

/-- A scan that has observed its package and comes to its database; these are the indices of
the tasks that were run. -/
structure Concluded {options : PackageOptions} (host : ScanHost options) (package : Text)
    (final : Result) (ran : List Nat) : Prop where
  ends : (scan host package).result = some final
  observes : Observes (scan host package).steps
  runs : (outcome (scanJob options.toScanOptions final.metadata host.calls) host.turns).map
    (fun ended => ended.1.ran) = some ran

/-- What stands around the events of the observation. -/
def framedEvents (options : PackageOptions) (events : List Text) : List Text :=
  "\x7b\"schema_version\":1,\"type\":\"rootfs_btrfs\"\x7d".toList :: events ++
    ["\x7b\"schema_version\":1,\"type\":\"network_policy\",\"mode\":\"".toList ++ options.network ++
        "\",\"allowlist\":".toList ++ jsonArray options.mirrors ++ "\x7d".toList,
      "\x7b\"schema_version\":1,\"type\":\"scan_complete\"\x7d".toList]

section Stages

variable {options : PackageOptions} {host : ScanHost options} {package root : Text}
  {session : Rootfs.Session} {before : Snapshot} {result final : Result}

theorem not_observes {steps : List ScanStep} (h : ∀ step ∈ steps, ¬step.Executes) :
    ¬Observes steps := by
  rintro ⟨root, tasks, hmem⟩
  exact h _ hmem trivial

theorem observes_append {steps steps' : List ScanStep} :
    Observes (steps ++ steps') ↔ Observes steps ∨ Observes steps' := by
  simp only [Observes, List.mem_append, exists_or]

/-- When the run gets to its end behind a call of `observe`, its result is what `concludeScan`
makes of one that had these events before. -/
def Concludes (host : ScanHost options) (events : List Text) (run : ScanRun) : Prop :=
  ∀ final, run.result = some final → Observes run.steps →
    ∃ result merged s,
      outcome (scanJob options.toScanOptions result.metadata host.calls) host.turns =
          some (s, merged) ∧
        result.events = events ∧ final = concludeScan host result merged

variable {events : List Text} {run : ScanRun} {steps : List ScanStep}

theorem concludes_throw (steps : List ScanStep) :
    Concludes host events { steps := steps, result := none } := nofun

/-- An early return in front of `observe`. -/
theorem concludes_return (h : ¬Observes steps) (result : Result) :
    Concludes host events { steps := steps, result := some result } :=
  fun _ _ hobserves => absurd hobserves h

theorem not_observes_nil : ¬Observes [] := by
  rintro ⟨_, _, ⟨⟩⟩

theorem Concludes.after (h : Concludes host events run) (hsteps : ¬Observes steps) :
    Concludes host events (run.after steps) :=
  fun final hfinal hobserves => h final hfinal ((observes_append.mp hobserves).resolve_left hsteps)

theorem concludes_observeStage :
    Concludes host result.events (observeStage host root before result) := by
  rw [observeStage.eq_def]
  split
  · exact concludes_throw _
  split
  · exact concludes_throw _
  dsimp only
  split
  · exact concludes_throw _
  · rename_i s merged houtcome
    split
    · exact concludes_throw _
    · intro final hfinal _
      refine ⟨_, merged, s, ?_, ?_, (Option.some.inj hfinal).symm⟩
      · exact houtcome
      · rfl

theorem concludes_installStage :
    Concludes host [session.event] (installStage host package session result) := by
  rw [installStage.eq_def]
  dsimp only
  split
  · exact concludes_throw _
  · exact concludes_throw _
  · exact concludes_observeStage
  split
  · exact concludes_return not_observes_nil _
  split
  · exact concludes_return not_observes_nil _
  have hinstall : ∀ command config, ¬Observes [.install command config] := by
    rintro command config ⟨root, tasks, hmem⟩
    cases List.mem_singleton.mp hmem
  refine Concludes.after ?_ (hinstall _ _)
  split
  · exact concludes_return not_observes_nil _
  split
  · exact concludes_return not_observes_nil _
  · exact concludes_observeStage

theorem concludes_sessionStage :
    Concludes host ["\x7b\"schema_version\":1,\"type\":\"rootfs_btrfs\"\x7d".toList]
      (sessionStage host package result) := by
  have hcreate : ∀ workspace created,
      ¬Observes [.createSession options.rootfs workspace created] := by
    rintro workspace created ⟨root, tasks, hmem⟩
    cases List.mem_singleton.mp hmem
  rw [sessionStage]
  split
  · exact concludes_return not_observes_nil _
  dsimp only
  split
  · exact concludes_return not_observes_nil _
  split
  · exact concludes_return not_observes_nil _
  split
  · exact concludes_return not_observes_nil _
  split
  · exact concludes_throw _
  · exact concludes_return (hcreate _ _) _
  · rename_i session _
    refine Concludes.after ?_ (hcreate _ _)
    split
    · exact concludes_return not_observes_nil _
    · rename_i hisolated
      have hevent : session.event =
          "\x7b\"schema_version\":1,\"type\":\"rootfs_btrfs\"\x7d".toList := by
        rw [Rootfs.Session.event, if_pos (by simpa using hisolated)]
      rw [← hevent]
      exact concludes_installStage

theorem concludes_mirrorStage :
    Concludes host ["\x7b\"schema_version\":1,\"type\":\"rootfs_btrfs\"\x7d".toList]
      (mirrorStage host package result) := by
  rw [mirrorStage]
  split
  · exact concludes_return not_observes_nil _
  refine Concludes.after ?_ (not_observes fun _ => not_executes_mirrorSteps)
  split
  · exact concludes_return not_observes_nil _
  · exact concludes_sessionStage

theorem concludes_scan (host : ScanHost options) (package : Text) :
    Concludes host ["\x7b\"schema_version\":1,\"type\":\"rootfs_btrfs\"\x7d".toList]
      (scan host package) := by
  rw [scan]
  split
  · exact concludes_return not_observes_nil _
  dsimp only
  split
  · exact concludes_throw _
  refine Concludes.after ?_ (not_observes not_executes_inspected)
  split
  · exact concludes_return not_observes_nil _
  · exact concludes_mirrorStage

/-- What a scan stores is what its workers have left, in its frame. -/
theorem Concluded.storedEvents_eq {ran : List Nat} (h : Concluded host package final ran) :
    ∃ merged s,
      outcome (scanJob options.toScanOptions final.metadata host.calls) host.turns =
          some (s, merged) ∧ s.ran = ran ∧
        storedEvents host final = framedEvents options (observed host.root merged).events := by
  obtain ⟨result, merged, s, houtcome, hevents, hfinal⟩ :=
    concludes_scan host package final h.ends h.observes
  have hmetadata : final.metadata = result.metadata := by rw [hfinal, concludeScan]
  have hruns := h.runs
  rw [hmetadata, houtcome] at hruns
  refine ⟨merged, s, ?_, Option.some.inj hruns, ?_⟩
  · rw [hmetadata]
    exact houtcome
  · rw [storedEvents, hfinal, concludeScan]
    dsimp only
    rw [hevents]
    split
    · rw [List.append_nil]
      rfl
    · rw [List.dropLast_concat]
      rfl

end Stages

/-! ## The events of the tasks -/

section Slots

variable {job : Job} {turns : List Turn} {s : Schedule} {merged : Observed}

theorem events_mergeAll (result : Observed) (slots : List Observed) :
    (mergeAll result slots).events = result.events ++ slots.flatMap (·.events) := by
  induction slots generalizing result with
  | nil => exact (List.append_nil _).symm
  | cons slot slots ih =>
    rw [mergeAll, List.foldl_cons, ← mergeAll, ih, List.flatMap_cons, ← List.append_assoc]
    rfl

/-- The events of a task that was run, if it was. -/
def Job.eventsAt (job : Job) (ran : List Nat) (index : Nat) (task : Task) : List Text :=
  if index ∈ ran then (job.runTask index task).events else []

/-- A task that was not run leaves no events. -/
theorem events_slotsAfter (job : Job) (ran skipped : List Nat) :
    (job.slotsAfter ran skipped).map (·.events) = job.tasks.mapIdx (job.eventsAt ran) := by
  apply List.ext_getElem?
  intro index
  rw [List.getElem?_map, Job.slotsAfter, List.getElem?_mapIdx, List.getElem?_mapIdx, Option.map_map]
  congr 1
  funext task
  rw [Job.eventsAt, Function.comp_apply]
  by_cases hran : index ∈ ran
  · rw [if_pos hran, if_pos hran]
  · rw [if_neg hran, if_neg hran]
    split
    · rfl
    · rfl

theorem events_of_outcome (h : outcome job turns = some (s, merged)) :
    merged.events = job.header.events ++ (job.tasks.mapIdx (job.eventsAt s.ran)).flatten := by
  rw [outcome] at h
  split at h
  · cases h
  rename_i outputs s' hrun
  split at h
  · rename_i result hmain
    obtain ⟨rfl, rfl⟩ := Prod.mk.inj (Option.some.inj h)
    have hI := run_inv hrun
    have hmerged := hI.main
    rw [MainInv, hmain] at hmerged
    rw [hmerged.2.2, hI.slots, events_mergeAll, List.flatMap_def, events_slotsAfter]
  · cases h

end Slots

/-! ## Targets that do the same -/

/-- The same lines of the tracer, with the same output between them, but for the process ids. -/
inductive SameTrace : Shared → Shared → Prop
  | untraced (message : Text) : SameTrace (.untraced message) (.untraced message)
  | traced {root root' : Pid} {output : Text} {later later' : List (Event × Text)}
      (hlater : List.Forall₂ (fun part part' =>
        traceKind part.1.payload = traceKind part'.1.payload ∧
          part.1.context.sequence = part'.1.context.sequence ∧ part.2 = part'.2) later later') :
      SameTrace (.traced root output later) (.traced root' output later')

def Shared.pids (shared : Shared) : List Pid := shared.lines.map (·.context.pid)

section Streams

theorem comma_not_mem_ofInt (value : Int) : ',' ∉ Text.ofInt value := by
  intro h
  rcases Text.of_mem_ofInt h with h | h
  · cases h
  · exact absurd h (by decide)

/-- The pid of a line can be read off. -/
theorem traceLine_append_iff {event event' : Event} {more more' : Text}
    (hkind : traceKind event.payload = traceKind event'.payload)
    (hsequence : event.context.sequence = event'.context.sequence) :
    traceLine event ++ more = traceLine event' ++ more' ↔
      event.context.pid = event'.context.pid ∧ more = more' := by
  have hcomma : ",\"sequence\":".toList = ',' :: "\"sequence\":".toList := rfl
  delta traceLine
  rw [hkind, hsequence, hcomma]
  simp only [List.append_assoc, List.append_cancel_left_eq, List.cons_append]
  constructor
  · intro heq
    obtain ⟨hpid, hrest⟩ := Search.append_delimiter_inj (comma_not_mem_ofInt _)
      (comma_not_mem_ofInt _) heq
    exact ⟨Text.ofInt_inj.mp hpid,
      List.append_cancel_left (List.append_cancel_left (List.append_cancel_left hrest))⟩
  · rintro ⟨hpid, hmore⟩
    rw [hpid, hmore]

/-- So can the pid of the notice. -/
theorem tracingNotice_append_iff {root root' : Pid} {more more' : Text} :
    tracingNotice root ++ more = tracingNotice root' ++ more' ↔ root = root' ∧ more = more' := by
  have hnewline : ∀ pid, '\n' ∉ Text.ofInt pid := by
    intro pid h
    rcases Text.of_mem_ofInt h with h | h
    · cases h
    · exact absurd h (by decide)
  delta tracingNotice
  simp only [List.append_assoc, List.append_cancel_left_eq, List.singleton_append]
  constructor
  · intro heq
    obtain ⟨hpid, hmore⟩ := Search.append_delimiter_inj (hnewline _) (hnewline _) heq
    exact ⟨Text.ofInt_inj.mp hpid, hmore⟩
  · rintro ⟨rfl, rfl⟩
    rfl

/-- Lines that differ only in their pids make the same text when these are the same. -/
theorem streamOf_eq_iff {rest rest' : List (Event × Text)} (text : Text)
    (h : List.Forall₂ (fun part part' =>
      traceKind part.1.payload = traceKind part'.1.payload ∧
        part.1.context.sequence = part'.1.context.sequence ∧ part.2 = part'.2) rest rest') :
    streamOf text rest = streamOf text rest' ↔
      rest.map (·.1.context.pid) = rest'.map (·.1.context.pid) := by
  induction h generalizing text with
  | nil => exact ⟨fun _ => rfl, fun _ => rfl⟩
  | @cons part part' rest rest' hpart _ ih =>
    obtain ⟨event, next⟩ := part
    obtain ⟨event', next'⟩ := part'
    obtain ⟨hkind, hsequence, hnext⟩ := hpart
    dsimp only at hkind hsequence hnext
    rw [streamOf, streamOf, List.append_cancel_left_eq, traceLine_append_iff hkind hsequence, hnext,
      ih next']
    simp only [List.map_cons, List.cons.injEq]

/-- Targets that do the same write the same, as a whole, when their processes have the same ids. -/
theorem bytes_eq_iff {shared shared' : Shared} (h : SameTrace shared shared') :
    shared.bytes = shared'.bytes ↔ shared.pids = shared'.pids := by
  cases h with
  | untraced message => exact ⟨fun _ => rfl, fun _ => rfl⟩
  | @traced root root' output later later' hlater =>
    have hbytes : ∀ root later, (Shared.traced root output later).bytes =
        tracingNotice root ++ (traceLine (startedEvent root) ++ streamOf output later) :=
      fun _ _ => rfl
    have hpids : ∀ root later, (Shared.traced root output later).pids =
        root :: later.map (·.1.context.pid) := by
      intro root later
      rw [Shared.pids, Shared.lines, List.map_map]
      rfl
    have hstarted := @traceLine_append_iff (startedEvent root) (startedEvent root')
      (streamOf output later) (streamOf output later') rfl rfl
    rw [hbytes, hbytes, hpids, hpids, tracingNotice_append_iff, hstarted,
      streamOf_eq_iff output hlater, List.cons.injEq]
    exact ⟨fun h => ⟨h.1, h.2.2⟩, fun h => ⟨h.1, h.1, h.2⟩⟩

end Streams

/-- What the sandbox has captured of targets that do the same: the streams may be cut. -/
structure SameCaptured (captured captured' : Captured) : Prop where
  status : captured.status = captured'.status
  timedOut : captured.timedOut = captured'.timedOut
  stdoutData : captured.stdoutData = captured'.stdoutData
  stderrData : ∃ shared shared' length length', SameTrace shared shared' ∧
    captured.stderrData = shared.bytes.take length ∧
    captured'.stderrData = shared'.bytes.take length'

/-! ## Calls -/

section Calls

variable {options : Options} {host host' : TaskHost} {task : Task} {root root' : Text}

theorem events_of_runs (h : Runs options host task root) :
    (runOne options host task).events =
      (Record.attested (taskConfig options host root)).text ::
        (Record.ran task (capturedOf options host task root)).text ::
          traceEvents (capturedOf options host task root).stderrData := by
  rw [runOne_of_runs h, resultWith, text_attested]
  dsimp only [Observed.append]
  rw [text_ran]
  exact List.append_nil _

theorem isEmpty_taskCgroup (options : Options) (host : TaskHost) :
    (taskCgroup options host).isEmpty = options.cgroupRoot.isEmpty := by
  rw [taskCgroup]
  split
  · rename_i hroot
    rw [hroot]
  · rename_i hroot
    have hnone : options.cgroupRoot.isEmpty = false := by simpa using hroot
    have hrelative : LexicalPath.isAbsolute ("execell-task-".toList ++ Text.ofNat host.pid ++
        '-' :: Text.ofNat host.sequence) = false := rfl
    rw [hnone, LexicalPath.append, if_neg (by rw [hrelative]; exact Bool.false_ne_true)]
    split
    · simp [hroot]
    · simp [hroot]

theorem rootfs_inj {text text' : Text}
    (h : text.flatMap manifestEscape = text'.flatMap manifestEscape) : text = text' :=
  Json.Shortens.flatMap_inj shortens_manifestEscape h

/-- The attestation has the path of the snapshot, and nothing else that the host assigns. -/
theorem attested_eq_iff {options' : Options} (hcgroupRoot : options.cgroupRoot = options'.cgroupRoot) :
    (Record.attested (taskConfig options host root)).text =
        (Record.attested (taskConfig options' host' root')).text ↔ root = root' := by
  have hcgroup : (taskCgroup options host).isEmpty = (taskCgroup options' host').isEmpty := by
    rw [isEmpty_taskCgroup, isEmpty_taskCgroup, hcgroupRoot]
  rw [← text_attested, ← text_attested, List.append_cancel_right_eq, List.append_cancel_left_eq]
  unfold attestation taskConfig
  dsimp only
  rw [hcgroup]
  simp only [List.append_cancel_right_eq, List.append_cancel_left_eq]
  constructor
  · exact rootfs_inj
  · rintro rfl
    rfl

/-- Of what is captured of targets that do the same, only the standard error can differ. -/
theorem ran_eq_iff {captured captured' : Captured} (h : SameCaptured captured captured') :
    (Record.ran task captured).text = (Record.ran task captured').text ↔
      captured.stderrData = captured'.stderrData := by
  have htext : ∀ captured,
      [(Record.ran task captured).text] = (captureEntries task captured).events :=
    fun captured => (text_ran task captured).symm
  rw [← List.singleton_inj, htext, htext]
  dsimp only [captureEntries]
  rw [h.status, h.timedOut, h.stdoutData, List.singleton_inj]
  simp only [List.append_cancel_right_eq, List.append_cancel_left_eq]
  constructor
  · exact Json.Shortens.flatMap_inj shortens_observationEscape
  · intro heq
    rw [heq]

theorem eq_of_begins {left left' whole : List Text} (h : left <+: whole) (h' : left' <+: whole)
    (hlength : left.length = left'.length) : left = left' :=
  (List.prefix_of_prefix_length_le h h' hlength.le).eq_of_length hlength

/-- Two calls leave beginnings of their events: all of them, or equally many. They leave the same
when the two first events are the same, as far as they come to them. -/
theorem append_entries_iff {a a' b b' : Text} {rest rest' left left' more more' : List Text}
    (hleft : left <+: a :: b :: rest) (hleft' : left' <+: a' :: b' :: rest')
    (hsame : left = a :: b :: rest ∧ left' = a' :: b' :: rest' ∨ left.length = left'.length)
    (hrest : b = b' → rest = rest') :
    left ++ more = left' ++ more' ↔
      ((0 < left.length → a = a') ∧ (1 < left.length → b = b')) ∧ more = more' := by
  rcases hsame with ⟨rfl, rfl⟩ | hlength
  · constructor
    · intro heq
      obtain ⟨ha, htail⟩ := List.cons.inj heq
      obtain ⟨hb, hmore⟩ := List.cons.inj htail
      rw [hrest hb] at hmore
      exact ⟨⟨fun _ => ha, fun _ => hb⟩, List.append_cancel_left hmore⟩
    · rintro ⟨⟨ha, hb⟩, hmore⟩
      have hb' := hb (by simp)
      rw [ha (by simp), hb', hrest hb', hmore]
  cases left with
  | nil =>
    rw [List.eq_nil_of_length_eq_zero hlength.symm]
    simp
  | cons c left =>
    cases left' with
    | nil => cases hlength
    | cons c' left' =>
      obtain ⟨rfl, htail⟩ := List.cons_prefix_cons.mp hleft
      obtain ⟨rfl, htail'⟩ := List.cons_prefix_cons.mp hleft'
      cases left with
      | nil =>
        rw [List.eq_nil_of_length_eq_zero (Nat.succ.inj hlength).symm]
        simp
      | cons d left =>
        cases left' with
        | nil => cases hlength
        | cons d' left' =>
          obtain ⟨rfl, hbegin⟩ := List.cons_prefix_cons.mp htail
          obtain ⟨rfl, hbegin'⟩ := List.cons_prefix_cons.mp htail'
          have hsame : d = d' → left = left' := by
            intro hd
            rw [← hrest hd] at hbegin'
            exact eq_of_begins hbegin hbegin' (Nat.succ.inj (Nat.succ.inj hlength))
          constructor
          · intro heq
            obtain ⟨hc, htail⟩ := List.cons.inj heq
            obtain ⟨hd, hmore⟩ := List.cons.inj htail
            rw [hsame hd] at hmore
            exact ⟨⟨fun _ => hc, fun _ => hd⟩, List.append_cancel_left hmore⟩
          · rintro ⟨⟨hc, hd⟩, hmore⟩
            have hd' := hd (by simp)
            rw [hc (by simp), hd', hsame hd', hmore]

end Calls

/-- Two calls for a target that does the same: they get equally far, and what they capture is the
same but for process ids. -/
structure SameTarget {options : Options} {task : Task} (call call' : Call options task) : Prop where
  staged : call.host.staged = call'.host.staged
  session : call.host.session.isSome = call'.host.session.isSome
  snapshotHasFile : call.host.snapshotHasFile = call'.host.snapshotHasFile
  cgroupCreated : call.host.cgroupCreated = call'.host.cgroupCreated
  returned : call.ending = .returned ↔ call'.ending = .returned
  written : call.ending ≠ .returned → call.left.events.length = call'.left.events.length
  captured : ∀ root root', Runs (options.within call.seconds) call.host task root →
    Runs (options.within call'.seconds) call'.host task root' →
    SameCaptured (capturedOf (options.within call.seconds) call.host task root)
      (capturedOf (options.within call'.seconds) call'.host task root')

/-- The host gives two calls the same snapshot path and the same standard error, if they come to
write these down. -/
structure HostAlike {options : Options} {task : Task} (call call' : Call options task) : Prop where
  path : ∀ root root', Runs (options.within call.seconds) call.host task root →
    Runs (options.within call'.seconds) call'.host task root' →
    0 < call.left.events.length → root = root'
  stderrData : ∀ root root', Runs (options.within call.seconds) call.host task root →
    Runs (options.within call'.seconds) call'.host task root' →
    1 < call.left.events.length →
    (capturedOf (options.within call.seconds) call.host task root).stderrData =
      (capturedOf (options.within call'.seconds) call'.host task root').stderrData

section Targets

variable {options : Options} {task : Task} {call call' : Call options task}

theorem events_afterEnding (result : Observed) (ending : Ending) :
    (afterEnding result ending).events = result.events ++
      if ending = .returned then []
      else ["\x7b\"schema_version\":1,\"type\":\"worker_failure\"\x7d".toList] := by
  cases ending with
  | returned => exact (List.append_nil _).symm
  | threw what => rfl
  | threwOther => rfl

/-- The calls get equally far. -/
theorem SameTarget.runs (h : SameTarget call call') {root : Text}
    (hruns : Runs (options.within call.seconds) call.host task root) :
    ∃ root', Runs (options.within call'.seconds) call'.host task root' := by
  obtain ⟨hrelative, hinside, hstaged, hsession, hfile, hcgroup⟩ := hruns
  have hsome : call'.host.session.isSome = true := by
    rw [← h.session, hsession]
    rfl
  obtain ⟨root', hroot'⟩ := Option.isSome_iff_exists.mp hsome
  refine ⟨root', hrelative, hinside, ?_, hroot', ?_, ?_⟩
  · rw [← h.staged, hstaged]
  · rw [← h.snapshotHasFile, hfile]
  · rw [← h.cgroupCreated]
    exact hcgroup

/-- A call that does not come to its sandbox leaves nothing of the host. -/
theorem SameTarget.events_of_not_runs (h : SameTarget call call')
    (hruns : ∀ root, ¬Runs (options.within call.seconds) call.host task root) :
    (runOne (options.within call.seconds) call.host task).events =
      (runOne (options.within call'.seconds) call'.host task).events := by
  have hsessions := h.session
  delta runOne
  by_cases hpath : LexicalPath.isAbsolute task.path = true ∨ Search.occurs "..".toList task.path = true
  · rw [if_pos hpath, if_pos hpath]
  rw [if_neg hpath, if_neg hpath, ← h.staged]
  by_cases hstaged : (!call.host.staged) = true
  · rw [if_pos hstaged, if_pos hstaged]
  rw [if_neg hstaged, if_neg hstaged]
  cases hsession : call.host.session with
  | none =>
    rw [hsession] at hsessions
    rw [Option.isSome_eq_false_iff.mp hsessions.symm |> Option.isNone_iff_eq_none.mp]
  | some root =>
    rw [hsession] at hsessions
    obtain ⟨root', hsession'⟩ := Option.isSome_iff_exists.mp hsessions.symm
    rw [hsession']
    dsimp only
    rw [← h.snapshotHasFile, ← h.cgroupCreated]
    by_cases hfile : (!call.host.snapshotHasFile) = true
    · rw [if_pos hfile, if_pos hfile]
    rw [if_neg hfile, if_neg hfile]
    by_cases hcgroup : options.cgroupRoot ≠ [] ∧ (!call.host.cgroupCreated) = true
    · have hleft : (options.within call.seconds).cgroupRoot ≠ [] ∧ (!call.host.cgroupCreated) = true :=
        hcgroup
      have hright : (options.within call'.seconds).cgroupRoot ≠ [] ∧
          (!call.host.cgroupCreated) = true := hcgroup
      rw [if_pos hleft, if_pos hright]
    · refine absurd ?_ (hruns root)
      rw [not_or, Bool.not_eq_true, Bool.not_eq_true] at hpath
      rw [Bool.not_eq_true', Bool.not_eq_false] at hstaged hfile
      refine ⟨hpath.1, hpath.2, hstaged, hsession, hfile, fun hroot => ?_⟩
      by_contra hcreated
      exact hcgroup ⟨hroot, by simpa using hcreated⟩

theorem root_unique {host : TaskHost} {root root' : Text} {options' : Options}
    (h : Runs options host task root) (h' : Runs options' host task root') : root = root' := by
  obtain ⟨_, _, _, hsession, _, _⟩ := h
  obtain ⟨_, _, _, hsession', _, _⟩ := h'
  rw [hsession] at hsession'
  exact Option.some.inj hsession'

theorem hostAlike_iff {root root' : Text}
    (hruns : Runs (options.within call.seconds) call.host task root)
    (hruns' : Runs (options.within call'.seconds) call'.host task root') :
    HostAlike call call' ↔
      (0 < call.left.events.length → root = root') ∧
        (1 < call.left.events.length →
          (capturedOf (options.within call.seconds) call.host task root).stderrData =
            (capturedOf (options.within call'.seconds) call'.host task root').stderrData) := by
  constructor
  · intro h
    exact ⟨h.path root root' hruns hruns', h.stderrData root root' hruns hruns'⟩
  · rintro ⟨hpath, hstderr⟩
    constructor
    · intro root₁ root₁' hruns₁ hruns₁'
      rw [← root_unique hruns hruns₁, ← root_unique hruns' hruns₁']
      exact hpath
    · intro root₁ root₁' hruns₁ hruns₁'
      rw [← root_unique hruns hruns₁, ← root_unique hruns' hruns₁']
      exact hstderr

theorem HostAlike.refl (call : Call options task) : HostAlike call call := by
  constructor
  · intro root root' hruns hruns' _
    exact root_unique hruns hruns'
  · intro root root' hruns hruns' _
    rw [root_unique hruns hruns']

/-- Two calls that return and capture all that their processes write are given the same if and
only if the snapshots have the same path and the processes the same ids. -/
theorem hostAlike_iff_pids {root root' : Text} {shared shared' : Shared}
    (hruns : Runs (options.within call.seconds) call.host task root)
    (hruns' : Runs (options.within call'.seconds) call'.host task root')
    (hreturned : call.ending = .returned) (htrace : SameTrace shared shared')
    (hbytes : (capturedOf (options.within call.seconds) call.host task root).stderrData =
      shared.bytes)
    (hbytes' : (capturedOf (options.within call'.seconds) call'.host task root').stderrData =
      shared'.bytes) :
    HostAlike call call' ↔ root = root' ∧ shared.pids = shared'.pids := by
  have hlength : 1 < call.left.events.length := by
    rw [call.whole hreturned, events_of_runs hruns]
    simp
  have hpositive : 0 < call.left.events.length := by omega
  rw [hostAlike_iff hruns hruns', hbytes, hbytes', bytes_eq_iff htrace,
    forall_prop_of_true hpositive, forall_prop_of_true hlength]

/-- What a call leaves is all of its events when it returns, and a beginning otherwise. -/
theorem SameTarget.left_events (h : SameTarget call call') :
    (call.left.events = (runOne (options.within call.seconds) call.host task).events ∧
        call'.left.events = (runOne (options.within call'.seconds) call'.host task).events) ∨
      call.left.events.length = call'.left.events.length := by
  by_cases hreturned : call.ending = .returned
  · rw [call.whole hreturned, call'.whole (h.returned.mp hreturned)]
    exact .inl ⟨rfl, rfl⟩
  · exact .inr (h.written hreturned)

/-- The events of two calls for targets that do the same, in front of others. -/
theorem SameTarget.append_iff (h : SameTarget call call') (more more' : List Text) :
    (afterEnding call.left call.ending).events ++ more =
        (afterEnding call'.left call'.ending).events ++ more' ↔
      HostAlike call call' ∧ more = more' := by
  have hbegins := call.begins.events
  have hbegins' := call'.begins.events
  have hleft := h.left_events
  have hending : call.ending = .returned ↔ call'.ending = .returned := h.returned
  rw [events_afterEnding, events_afterEnding, List.append_assoc, List.append_assoc,
    if_congr hending rfl rfl]
  by_cases hruns : ∃ root, Runs (options.within call.seconds) call.host task root
  · obtain ⟨root, hruns⟩ := hruns
    obtain ⟨root', hruns'⟩ := h.runs hruns
    have hcaptured := h.captured root root' hruns hruns'
    rw [events_of_runs hruns] at hbegins hleft
    rw [events_of_runs hruns'] at hbegins' hleft
    have hstderr := @ran_eq_iff task _ _ hcaptured
    have hrest := fun heq => congrArg traceEvents (hstderr.mp heq)
    have hcgroupRoot : (options.within call.seconds).cgroupRoot =
        (options.within call'.seconds).cgroupRoot := rfl
    have hpath := @attested_eq_iff _ call.host call'.host root root' _ hcgroupRoot
    rw [append_entries_iff hbegins hbegins' (by simpa [and_assoc] using hleft) hrest,
      hostAlike_iff hruns hruns', hpath, hstderr, List.append_cancel_left_eq]
  · have hnone : ∀ root, ¬Runs (options.within call.seconds) call.host task root :=
      not_exists.mp hruns
    have hsame : call.left.events = call'.left.events := by
      rw [← h.events_of_not_runs hnone] at hbegins' hleft
      rcases hleft with ⟨hwhole, hwhole'⟩ | hlength
      · rw [hwhole, hwhole']
      · exact eq_of_begins hbegins hbegins' hlength
    have halike : HostAlike call call' :=
      ⟨fun root _ hruns => absurd hruns (hnone root), fun root _ hruns => absurd hruns (hnone root)⟩
    rw [hsame, List.append_cancel_left_eq, List.append_cancel_left_eq, and_iff_right halike]

end Targets

/-! ## Two scans -/

section Scans

variable {options : PackageOptions} {host host' : ScanHost options} {package package' : Text}
  {final final' : Result} {ran ran' : List Nat}

theorem flatten_mapIdx_iff {tasks : List Task} {f g : Nat → Task → List Text} {P : Nat → Task → Prop}
    (h : ∀ index task, tasks[index]? = some task → ∀ more more',
      f index task ++ more = g index task ++ more' ↔ P index task ∧ more = more')
    (more more' : List Text) :
    (tasks.mapIdx f).flatten ++ more = (tasks.mapIdx g).flatten ++ more' ↔
      (∀ index task, tasks[index]? = some task → P index task) ∧ more = more' := by
  induction tasks generalizing f g P with
  | nil => simp
  | cons task tasks ih =>
    have hfirst := h 0 task rfl
    have hrest := @ih (fun index => f (index + 1)) (fun index => g (index + 1))
      (fun index => P (index + 1)) fun index task htask => h (index + 1) task htask
    rw [List.mapIdx_cons, List.mapIdx_cons, List.flatten_cons, List.flatten_cons, List.append_assoc,
      List.append_assoc, hfirst, hrest, ← and_assoc]
    refine and_congr_left fun _ => ?_
    constructor
    · rintro ⟨hzero, hsucc⟩ index other hother
      cases index with
      | zero =>
        cases hother
        exact hzero
      | succ index => exact hsucc index other hother
    · intro hall
      exact ⟨hall 0 task rfl, fun index other hother => hall (index + 1) other hother⟩

/-- Two scans in which the same targets are observed and do the same. -/
structure SameBehaviour (host host' : ScanHost options) (final final' : Result)
    (ran ran' : List Nat) : Prop where
  name : final.metadata.name = final'.metadata.name
  scripts : final.metadata.scripts = final'.metadata.scripts
  hooks : final.metadata.hooks = final'.metadata.hooks
  executables : final.metadata.executables = final'.metadata.executables
  root : host.root = host'.root
  observed : ∀ index, index ∈ ran ↔ index ∈ ran'
  targets : ∀ index ∈ ran, ∀ task,
    (scanJob options.toScanOptions final.metadata host.calls).tasks[index]? = some task →
      SameTarget (host.calls index task) (host'.calls index task)

/-- What two scans store of their behaviour is the same, and nothing else is found in it. -/
structure SameEvents (host host' : ScanHost options) (final final' : Result) : Prop where
  events : handedEvents final.metadata.name (storedEvents host final) =
    handedEvents final'.metadata.name (storedEvents host' final')
  fingerprint : dynamicFingerprint (storedEvents host final) =
    dynamicFingerprint (storedEvents host' final')
  compared : ∀ sqlite tables log name first second a b, History sqlite tables log →
    first ≠ second → lastStored log (cString name) first = some a →
    lastStored log (cString name) second = some b →
    a.events = handedEvents final.metadata.name (storedEvents host final) →
    b.events = handedEvents final'.metadata.name (storedEvents host' final') →
    ∃ observations rows, tables.observations = some observations ∧ tables.events = some rows ∧
      (compare observations rows name first second).addedEvents = [] ∧
      (compare observations rows name first second).removedEvents = []

theorem handedEvents_inj {name : Text} {events events' : List Text}
    (h : handedEvents name events = handedEvents name events') : events = events' :=
  List.map_injective_iff.mpr (fun _ _ heq => congrArg Storage.Event.detail heq) h

/-- It comes down to the events. -/
theorem sameEvents_iff (hname : final.metadata.name = final'.metadata.name) :
    SameEvents host host' final final' ↔ storedEvents host final = storedEvents host' final' := by
  constructor
  · intro h
    have hevents := h.events
    rw [hname] at hevents
    exact handedEvents_inj hevents
  · intro h
    refine ⟨by rw [hname, h], by rw [h], ?_⟩
    intro sqlite tables log name first second a b hhistory hdiffers hfirst hsecond ha hb
    refine Storage.compare_same_events hhistory hdiffers hfirst hsecond ?_
    rw [ha, hb, hname, h]

theorem framedEvents_iff {events events' : List Text} :
    framedEvents options events = framedEvents options events' ↔ events = events' := by
  rw [framedEvents, framedEvents, List.cons_append, List.cons_append, List.cons.injEq,
    List.append_cancel_right_eq, and_iff_right rfl]

/-- Two scans of targets that do the same store the same events if and only if the host gives
every target that is run the same snapshot path and the same standard error. -/
theorem same_events_iff (h : Concluded host package final ran)
    (h' : Concluded host' package' final' ran')
    (hsame : SameBehaviour host host' final final' ran ran') :
    SameEvents host host' final final' ↔
      ∀ index ∈ ran, ∀ task,
        (scanJob options.toScanOptions final.metadata host.calls).tasks[index]? = some task →
          HostAlike (host.calls index task) (host'.calls index task) := by
  obtain ⟨merged, s, houtcome, rfl, hevents⟩ := h.storedEvents_eq
  obtain ⟨merged', s', houtcome', rfl, hevents'⟩ := h'.storedEvents_eq
  have htasks : (scanJob options.toScanOptions final'.metadata host'.calls).tasks =
      (scanJob options.toScanOptions final.metadata host.calls).tasks := by
    dsimp only [scanJob, Job.ofPackage]
    rw [hsame.scripts, hsame.hooks, hsame.executables]
  have hheader : (scanJob options.toScanOptions final'.metadata host'.calls).header =
      (scanJob options.toScanOptions final.metadata host.calls).header := by
    dsimp only [scanJob, Job.ofPackage]
    rw [hsame.scripts, hsame.hooks, hsame.executables]
  rw [sameEvents_iff hsame.name, hevents, hevents', framedEvents_iff]
  dsimp only [observed, Observed.append]
  have hslots : ∀ index task,
      (scanJob options.toScanOptions final.metadata host.calls).tasks[index]? = some task →
        ∀ more more',
          Job.eventsAt (scanJob options.toScanOptions final.metadata host.calls) s.ran index task ++
                more =
              Job.eventsAt (scanJob options.toScanOptions final'.metadata host'.calls) s'.ran index
                task ++ more' ↔
            (index ∈ s.ran → HostAlike (host.calls index task) (host'.calls index task)) ∧
              more = more' := by
    intro index task htask more more'
    rw [Job.eventsAt, Job.eventsAt, if_congr (hsame.observed index).symm rfl rfl]
    by_cases hran : index ∈ s.ran
    · rw [if_pos hran, if_pos hran, forall_prop_of_true hran]
      exact (hsame.targets index hran task htask).append_iff more more'
    · rw [if_neg hran, if_neg hran, forall_prop_of_false hran]
      exact (and_iff_right trivial).symm
  rw [events_of_outcome houtcome, events_of_outcome houtcome', hheader, htasks, hsame.root,
    List.append_assoc, List.append_assoc, List.append_cancel_left_eq, flatten_mapIdx_iff hslots,
    and_iff_left rfl]
  constructor
  · intro halike index hran task htask
    exact halike index task htask hran
  · intro halike index task htask hran
    exact halike index hran task htask

end Scans

/-! ## Process ids -/

/-- The standard error of an executable that writes nothing and succeeds at once. -/
def tracedShared (pid : Pid) : Shared :=
  .traced pid []
    [(⟨.processExited pid 0 false, { pid := pid, sequence := 1 }⟩, []),
      (⟨.traceFinished pid 0 false, { pid := pid, sequence := 2 }⟩, [])]

/-- What is captured of it. -/
def tracedCaptured (pid : Pid) : Captured where
  status := 0
  stderrData := (tracedShared pid).bytes

/-- A host on which the executable of a package succeeds, with this id of the process that scans;
the executable gets a later one. -/
def tracedHost (pid clock : Nat) : ScanHost {} where
  package := packageHost [(toolPath, "#!/bin/sh\n".toList)]
  rootStamp _ := clock
  turns := soloTurns
  calls _ task :=
    Call.returning _
      { session := some ("/tmp/.execell-session-".toList ++ Text.ofNat pid ++ "-1000-1".toList)
        capture := fun _ _ => tracedCaptured (pid + 9) } task

/-- What `scan` returns. -/
def tracedResult (pid clock : Nat) : Result :=
  (scan (tracedHost pid clock) packagePath).result.getD toolResult

/-- Process ids and clocks. -/
def tracedIds : List (Nat × Nat) := [(100, 0), (100, 7), (200, 0)]

def ScanStep.isObserve : ScanStep → Bool
  | .observe _ _ => true
  | _ => false

theorem observes_of_any {steps : List ScanStep} (h : steps.any ScanStep.isObserve = true) :
    Observes steps := by
  obtain ⟨step, hmem, hstep⟩ := List.any_eq_true.mp h
  cases step with
  | observe root tasks => exact ⟨root, tasks, hmem⟩
  | _ => cases hstep

theorem concluded_tracedHost {pid clock : Nat} (h : (pid, clock) ∈ tracedIds) :
    Concluded (tracedHost pid clock) packagePath (tracedResult pid clock) [0] := by
  have hscans : ∀ ids ∈ tracedIds,
      (scan (tracedHost ids.1 ids.2) packagePath).result.isSome = true ∧
        (scan (tracedHost ids.1 ids.2) packagePath).steps.any ScanStep.isObserve = true ∧
        (outcome (scanJob ({} : PackageOptions).toScanOptions (tracedResult ids.1 ids.2).metadata
          (tracedHost ids.1 ids.2).calls) (tracedHost ids.1 ids.2).turns).map
            (fun ended => ended.1.ran) = some [0] := by
    decide +kernel
  obtain ⟨hsome, hany, hruns⟩ := hscans _ h
  obtain ⟨final, hfinal⟩ := Option.isSome_iff_exists.mp hsome
  refine ⟨?_, observes_of_any hany, hruns⟩
  rw [tracedResult, hfinal, Option.getD_some]

theorem metadata_tracedResult :
    ∀ ids ∈ tracedIds, (tracedResult 100 0).metadata = (tracedResult ids.1 ids.2).metadata := by
  decide +kernel

theorem sameCaptured_traced (pid pid' : Pid) :
    SameCaptured (tracedCaptured pid) (tracedCaptured pid') where
  status := rfl
  timedOut := rfl
  stdoutData := rfl
  stderrData :=
    ⟨tracedShared pid, tracedShared pid', (tracedShared pid).bytes.length,
      (tracedShared pid').bytes.length, .traced (.cons ⟨rfl, rfl, rfl⟩ (.cons ⟨rfl, rfl, rfl⟩ .nil)),
      List.take_length.symm, List.take_length.symm⟩

theorem sameTarget_traced (pid pid' clock clock' index : Nat) (task : Task) :
    SameTarget ((tracedHost pid clock).calls index task)
      ((tracedHost pid' clock').calls index task) where
  staged := rfl
  session := rfl
  snapshotHasFile := rfl
  cgroupCreated := rfl
  returned := Iff.rfl
  written h := absurd rfl h
  captured _ _ _ _ := sameCaptured_traced (pid + 9) (pid' + 9)

theorem sameBehaviour_traced {pid clock : Nat} (h : (pid, clock) ∈ tracedIds) :
    SameBehaviour (tracedHost 100 0) (tracedHost pid clock) (tracedResult 100 0)
      (tracedResult pid clock) [0] [0] := by
  have hmetadata := metadata_tracedResult _ h
  constructor
  · rw [hmetadata]
  · rw [hmetadata]
  · rw [hmetadata]
  · rw [hmetadata]
  · rfl
  · exact fun index => Iff.rfl
  · exact fun index _ task _ => sameTarget_traced 100 pid 0 clock index task

/-- The clock does not come into the events. -/
theorem same_events_clock :
    SameEvents (tracedHost 100 0) (tracedHost 100 7) (tracedResult 100 0) (tracedResult 100 7) :=
  (same_events_iff (concluded_tracedHost (by decide)) (concluded_tracedHost (by decide))
    (sameBehaviour_traced (by decide))).mpr fun _ _ _ _ => HostAlike.refl _

/-- The executable does the same for two scans by processes with other ids. -/
theorem not_same_events_pid :
    Concluded (tracedHost 100 0) packagePath (tracedResult 100 0) [0] ∧
      Concluded (tracedHost 200 0) packagePath (tracedResult 200 0) [0] ∧
      SameBehaviour (tracedHost 100 0) (tracedHost 200 0) (tracedResult 100 0) (tracedResult 200 0)
        [0] [0] ∧
      ¬SameEvents (tracedHost 100 0) (tracedHost 200 0) (tracedResult 100 0)
        (tracedResult 200 0) := by
  have hsame : SameBehaviour (tracedHost 100 0) (tracedHost 200 0) (tracedResult 100 0)
      (tracedResult 200 0) [0] [0] := sameBehaviour_traced (by decide)
  refine ⟨concluded_tracedHost (by decide), concluded_tracedHost (by decide), hsame, ?_⟩
  rw [sameEvents_iff hsame.name]
  intro hevents
  have htrace : (storedEvents (tracedHost 100 0) (tracedResult 100 0))[5]? ≠
      (storedEvents (tracedHost 200 0) (tracedResult 200 0))[5]? := by
    decide +kernel
  exact htrace (by rw [hevents])

end ExeCell.Package
