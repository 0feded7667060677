import ExeCell.Package.Records

/-!
# The entries of an observation

What `observe` has written when its threads are done, entry by entry: the entries of each
call of `run_one` (`Call.lines`), and around these the ones of `observe` itself
(`observed_writes`). Every entry is a record or what follows a mark on the standard error
of a target, taken over as it is.
-/

namespace ExeCell.Package

open Json
open Sandbox (Config Captured)

/-- A text without a line end. -/
abbrev LineText := { text : Text // '\n' ∉ text }

inductive Line where
  | record (record : Record)
  /-- The text between a mark and the end of its line. -/
  | cut (text : LineText)

namespace Line

def text : Line → Text
  | record r => r.text
  | cut text => text.val

/-- The line can stand among JSON objects. -/
def Fits : Line → Prop
  | record r => r.Fits
  | cut text => OneObject text.val

theorem oneObject_iff (line : Line) : OneObject line.text ↔ line.Fits := by
  cases line with
  | record r => exact oneObject_record_iff r
  | cut text => exact Iff.rfl

theorem map_cut (texts : List LineText) : (texts.map cut).map text = texts.map Subtype.val :=
  List.map_map

end Line

/-- The lines behind the entries of a result. -/
structure Lines where
  events : List Line := []
  processes : List Line := []
  network : List Line := []

namespace Lines

def append (lines lines' : Lines) : Lines where
  events := lines.events ++ lines'.events
  processes := lines.processes ++ lines'.processes
  network := lines.network ++ lines'.network

/-- The entries of the result are these lines. -/
structure Writes (lines : Lines) (result : Observed) : Prop where
  events : result.events = lines.events.map Line.text
  processes : result.processes = lines.processes.map Line.text
  network : result.network = lines.network.map Line.text

/-- Every line can stand among JSON objects. -/
def Fit (lines : Lines) : Prop :=
  (∀ line ∈ lines.events, line.Fits) ∧ (∀ line ∈ lines.processes, line.Fits) ∧
    ∀ line ∈ lines.network, line.Fits

theorem Writes.append {lines lines' : Lines} {result result' : Observed} (h : lines.Writes result)
    (h' : lines'.Writes result') : (lines.append lines').Writes (result.append result') where
  events := by simp [Lines.append, Observed.append, h.events, h'.events]
  processes := by simp [Lines.append, Observed.append, h.processes, h'.processes]
  network := by simp [Lines.append, Observed.append, h.network, h'.network]

theorem fit_append {lines lines' : Lines} : (lines.append lines').Fit ↔ lines.Fit ∧ lines'.Fit := by
  simp only [Fit, append, List.forall_mem_append]
  tauto

theorem append_empty (lines : Lines) : lines.append {} = lines := by
  simp [append]

theorem fit_empty : ({} : Lines).Fit :=
  ⟨List.forall_mem_nil _, List.forall_mem_nil _, List.forall_mem_nil _⟩

theorem writes_empty : ({} : Lines).Writes {} := ⟨rfl, rfl, rfl⟩

end Lines

/-! ## One call -/

theorem newline_not_mem_traceEvents {stderrData text : Text} (h : text ∈ traceEvents stderrData) :
    '\n' ∉ text := by
  have hloop : ∀ (fuel : Nat) (rest : Text), ∀ text ∈ traceLoop fuel rest, '\n' ∉ text := by
    intro fuel
    induction fuel with
    | zero =>
      intro rest text htext
      cases htext
    | succ fuel ih =>
      intro rest text htext
      rw [traceLoop] at htext
      split at htext
      · cases htext
      · rcases List.mem_cons.mp htext with rfl | hlater
        · intro hnewline
          exact absurd (List.mem_takeWhile_imp hnewline) (by decide)
        · exact ih _ text hlater
  exact hloop _ _ text h

/-- The texts behind the marks. -/
def cuts (stderrData : Text) : List LineText :=
  (traceEvents stderrData).attachWith _ fun _ => newline_not_mem_traceEvents

/-- The lines that are cut out of the standard error. -/
def cutLines (stderrData : Text) : Lines where
  events := (cuts stderrData).map .cut
  processes := ((cuts stderrData).filter fun text =>
    Search.occurs "process_".toList text.val).map .cut
  network := ((cuts stderrData).filter fun text =>
    Search.occurs "network_".toList text.val).map .cut

/-- The lines of a task that has run. -/
def ranLines (config : Config) (task : Task) (captured : Captured) : Lines :=
  let attested : Lines := { events := [.record (.attested config)] }
  attested.append
      { events := [.record (.ran task captured)]
        processes := [.record (.process task.path captured.status)]
        network := [.record (.network task.path)] }
    |>.append (cutLines captured.stderrData)

/-- The lines of `run_one`. -/
def taskLines (options : Options) (host : TaskHost) (task : Task) : Lines :=
  if LexicalPath.isAbsolute task.path ∨ Search.occurs "..".toList task.path then {}
  else if !host.staged then { events := [.record (.notStaged task.path)] }
  else
    match host.session with
    | none => { events := [.record .rejected] }
    | some root =>
      if !host.snapshotHasFile then {}
      else if options.cgroupRoot ≠ [] ∧ !host.cgroupCreated then {}
      else ranLines (taskConfig options host root) task (capturedOf options host task root)

theorem map_val_cuts (stderrData : Text) :
    (cuts stderrData).map Subtype.val = traceEvents stderrData :=
  List.attachWith_map_subtype_val _

theorem cutLines_writes (stderrData : Text) :
    (cutLines stderrData).Writes (traceEvidence stderrData) := by
  have hsome : ∀ name, ((cuts stderrData).filter fun text =>
      Search.occurs name text.val).map Subtype.val =
        (traceEvents stderrData).filter (Search.occurs name) := by
    intro name
    rw [← map_val_cuts, List.filter_map]
    rfl
  refine ⟨?_, ?_, ?_⟩
  · rw [cutLines, Line.map_cut, map_val_cuts]
    rfl
  · rw [cutLines, Line.map_cut, hsome]
    rfl
  · rw [cutLines, Line.map_cut, hsome]
    rfl

theorem ranLines_writes (options : Options) (host : TaskHost) (task : Task) (root : Text) :
    (ranLines (taskConfig options host root) task (capturedOf options host task root)).Writes
      (resultWith options host task root
        (traceEvidence (capturedOf options host task root).stderrData)) := by
  rw [resultWith]
  generalize taskConfig options host root = config
  generalize capturedOf options host task root = captured
  rw [text_attested]
  have hjudge : ({} : Lines).Writes (judgeEntries task captured) := ⟨rfl, rfl, rfl⟩
  rw [← Lines.append_empty (ranLines config task captured)]
  refine Lines.Writes.append (Lines.Writes.append (Lines.Writes.append ⟨rfl, rfl, rfl⟩ ?_)
    (cutLines_writes _)) hjudge
  exact ⟨text_ran task captured, text_process task captured, text_network task captured⟩

/-- The lines of a task that has run can stand among JSON objects when the texts have no
control bytes but line ends, and every text behind a mark is an object. -/
theorem fit_ranLines (config : Config) (task : Task) (captured : Captured) :
    (ranLines config task captured).Fit ↔
      Printed [] config.rootfs ∧ Printed ['\n', '\r'] task.path ∧
        Printed ['\n', '\r'] captured.stdoutData ∧ Printed ['\n', '\r'] captured.stderrData ∧
          ∀ text ∈ traceEvents captured.stderrData, OneObject text := by
  have hcuts : (cutLines captured.stderrData).Fit ↔
      ∀ text ∈ traceEvents captured.stderrData, OneObject text := by
    have hall : (∀ line ∈ (cutLines captured.stderrData).events, line.Fits) ↔
        ∀ text ∈ traceEvents captured.stderrData, OneObject text := by
      rw [cutLines, List.forall_mem_map, ← map_val_cuts, List.forall_mem_map]
      rfl
    rw [← hall]
    constructor
    · intro h
      exact h.1
    · intro h
      have hsome : ∀ name, ∀ line ∈ ((cuts captured.stderrData).filter fun text =>
          Search.occurs name text.val).map Line.cut, line.Fits := by
        intro name
        rw [List.forall_mem_map]
        intro text htext
        exact h _ (List.mem_map_of_mem (List.mem_of_mem_filter htext))
      exact ⟨h, hsome _, hsome _⟩
  rw [ranLines, Lines.fit_append, Lines.fit_append, hcuts]
  simp only [Lines.Fit, List.forall_mem_singleton, Line.Fits, Record.Fits, List.not_mem_nil,
    IsEmpty.forall_iff, implies_true, and_true]
  tauto

theorem runOne_writes (options : Options) (host : TaskHost) (task : Task) :
    (taskLines options host task).Writes (runOne options host task) := by
  rw [taskLines]
  split
  · rename_i hpath
    delta runOne
    rw [if_pos hpath]
    exact Lines.writes_empty
  rename_i hpath
  split
  · rename_i hstaged
    delta runOne
    rw [if_neg hpath, if_pos hstaged]
    refine ⟨?_, rfl, rfl⟩
    rw [text_notStaged]
    rfl
  rename_i hstaged
  split
  · rename_i hsession
    delta runOne
    rw [if_neg hpath, if_neg hstaged, hsession]
    refine ⟨?_, rfl, rfl⟩
    rfl
  rename_i root hsession
  split
  · rename_i hfile
    delta runOne
    rw [if_neg hpath, if_neg hstaged, hsession]
    dsimp only
    rw [if_pos hfile]
    exact ⟨rfl, rfl, rfl⟩
  rename_i hfile
  split
  · rename_i hcgroup
    delta runOne
    rw [if_neg hpath, if_neg hstaged, hsession]
    dsimp only
    rw [if_neg hfile, if_pos hcgroup]
    exact ⟨rfl, rfl, rfl⟩
  · rename_i hcgroup
    have hruns : Runs options host task root := by
      simp only [not_or, Bool.not_eq_true] at hpath
      simp only [Bool.not_eq_true', Bool.not_eq_false] at hstaged hfile
      refine ⟨hpath.1, hpath.2, hstaged, hsession, hfile, ?_⟩
      intro hroot
      simpa [hroot] using hcgroup
    rw [runOne_of_runs hruns]
    exact ranLines_writes options host task root

/-- The first lines of each kind. -/
def Lines.take (lines : Lines) (result : Observed) : Lines where
  events := lines.events.take result.events.length
  processes := lines.processes.take result.processes.length
  network := lines.network.take result.network.length

theorem Lines.Writes.take {lines : Lines} {result left : Observed} (h : lines.Writes result)
    (hbegins : left.Begins result) : (lines.take left).Writes left where
  events := by
    rw [Lines.take, List.map_take, ← h.events]
    exact List.prefix_iff_eq_take.mp hbegins.events
  processes := by
    rw [Lines.take, List.map_take, ← h.processes]
    exact List.prefix_iff_eq_take.mp hbegins.processes
  network := by
    rw [Lines.take, List.map_take, ← h.network]
    exact List.prefix_iff_eq_take.mp hbegins.network

variable {options : Options}

/-- The lines that a call has left. -/
def Call.lines {task : Task} (call : Call options task) : Lines :=
  (taskLines (options.within call.seconds) call.host task).take call.left

/-- The line for a call that throws. -/
def Ending.lines : Ending → Lines
  | .returned => {}
  | .threw _ | .threwOther => { events := [.record (.notice .workerFailure)] }

theorem Call.lines_writes {task : Task} (call : Call options task) :
    call.lines.Writes call.left :=
  (runOne_writes _ _ _).take call.begins

theorem afterEnding_writes {lines : Lines} {result : Observed} (h : lines.Writes result)
    (ending : Ending) : (lines.append ending.lines).Writes (afterEnding result ending) := by
  cases ending with
  | returned =>
    rw [Ending.lines, Lines.append_empty]
    exact h
  | threw what => exact h.append ⟨rfl, rfl, rfl⟩
  | threwOther => exact h.append ⟨rfl, rfl, rfl⟩

theorem Ending.fit_lines (ending : Ending) : ending.lines.Fit := by
  have hfailure : ({ events := [.record (.notice .workerFailure)] } : Lines).Fit :=
    ⟨List.forall_mem_singleton.mpr trivial, List.forall_mem_nil _, List.forall_mem_nil _⟩
  cases ending with
  | returned => exact Lines.fit_empty
  | threw what => exact hfailure
  | threwOther => exact hfailure

/-! ## The whole observation -/

def headerLines (options : Options) : Lines where
  events := [.record (.started options.network), .record .policy]

/-- What `observe` finds in the root behind its threads. -/
def rootLines (root : RootHost) : Lines :=
  let service :=
    root.present "etc/systemd/system".toList || root.present "etc/init.d".toList
  let scheduled :=
    root.present "etc/cron.d".toList || root.present "etc/cron.hourly".toList ||
      root.present "etc/cron.daily".toList
  let found (here : Bool) (kind : Notice) : List Line :=
    if here then [.record (.notice kind)] else []
  { events := found service .servicePath ++ found scheduled .persistencePath ++
      found root.setuid .privilegeChange ++ [.record (.notice .observationComplete)] }

/-- The lines of the slots, when these tasks have been run. -/
def slotLines (tasks : List Task) (calls : Nat → (task : Task) → Call options task)
    (ran : List Nat) : List Lines :=
  tasks.mapIdx fun index task =>
    if index ∈ ran then (calls index task).lines.append (calls index task).ending.lines else {}

/-- The lines of an observation in which these tasks have been run. -/
def observedLines (tasks : List Task) (calls : Nat → (task : Task) → Call options task)
    (ran : List Nat) (root : RootHost) : Lines :=
  ((slotLines tasks calls ran).foldl Lines.append (headerLines options)).append (rootLines root)

theorem header_writes (options : Options) (tasks : List Task) :
    (headerLines options).Writes (observeHeader options tasks) := by
  refine ⟨?_, rfl, rfl⟩
  rw [observeHeader, headerLines]
  cases options.network with
  | true => rfl
  | false => rfl

theorem root_writes (root : RootHost) : (rootLines root).Writes (rootEntries root) := by
  have hfound : ∀ (here : Bool) (kind : Notice),
      (if here then [(Line.record (.notice kind)).text] else []) =
        (if here then [Line.record (.notice kind)] else []).map Line.text := by
    intro here kind
    cases here <;> rfl
  refine ⟨?_, rfl, rfl⟩
  rw [rootLines, List.map_append, List.map_append, List.map_append, ← hfound, ← hfound, ← hfound]
  rfl

theorem foldl_writes {header : Lines} {result : Observed} {lines : List Lines}
    {slots : List Observed} (h : header.Writes result)
    (hslots : List.Forall₂ Lines.Writes lines slots) :
    (lines.foldl Lines.append header).Writes (mergeAll result slots) := by
  induction hslots generalizing header result with
  | nil => exact h
  | cons hfirst _ ih => exact ih (h.append hfirst)

theorem fit_foldl {header : Lines} {lines : List Lines} :
    (lines.foldl Lines.append header).Fit ↔ header.Fit ∧ ∀ l ∈ lines, l.Fit := by
  induction lines generalizing header with
  | nil => simp
  | cons first lines ih =>
    rw [List.foldl_cons, ih, Lines.fit_append, List.forall_mem_cons, and_assoc]

section Run

variable {scripts hooks executables : List Text}
  {calls : Nat → (task : Task) → Call options task} {turns : List Turn} {outputs : List Unit}
  {s : Schedule} {merged : Observed}

theorem slots_writes (ran skipped : List Nat) :
    List.Forall₂ Lines.Writes (slotLines (tasksOf scripts hooks executables) calls ran)
      ((Job.ofPackage options scripts hooks executables calls).slotsAfter ran skipped) := by
  rw [List.forall₂_iff_get]
  refine ⟨by simp [slotLines, Job.slotsAfter, Job.ofPackage], ?_⟩
  intro index hindex hindex'
  simp only [slotLines, Job.slotsAfter, Job.ofPackage, List.get_eq_getElem, List.getElem_mapIdx]
  split
  · exact afterEnding_writes (Call.lines_writes _) _
  split
  · exact ⟨rfl, rfl, rfl⟩
  · exact Lines.writes_empty

/-- The entries of an observation are its lines. -/
theorem observed_writes
    (hrun : Machine.run (scheduleStep (Job.ofPackage options scripts hooks executables calls))
      (Job.ofPackage options scripts hooks executables calls).start turns = some (outputs, s))
    (hend : s.main = .merged merged) (root : RootHost) :
    (observedLines (tasksOf scripts hooks executables) calls s.ran root).Writes
      (observed root merged) := by
  have hI := run_inv hrun
  have hmain := hI.main
  rw [MainInv, hend] at hmain
  rw [hmain.2.2, hI.slots]
  exact (foldl_writes (header_writes _ _) (slots_writes _ _)).append (root_writes root)

/-- They can all stand among JSON objects when those of the calls can. -/
theorem fit_observedLines (tasks : List Task) (ran : List Nat) (root : RootHost) :
    (observedLines tasks calls ran root).Fit ↔
      ∀ index ∈ ran, ∀ task, tasks[index]? = some task → (calls index task).lines.Fit := by
  have hheader : (headerLines options).Fit := by
    refine ⟨?_, List.forall_mem_nil _, List.forall_mem_nil _⟩
    intro line hline
    simp only [headerLines, List.mem_cons, List.not_mem_nil, or_false] at hline
    rcases hline with rfl | rfl
    · trivial
    · trivial
  have hroot : (rootLines root).Fit := by
    refine ⟨?_, List.forall_mem_nil _, List.forall_mem_nil _⟩
    intro line hline
    simp only [rootLines, List.mem_append, List.mem_singleton, List.mem_ite_nil_right] at hline
    rcases hline with ((⟨_, rfl⟩ | ⟨_, rfl⟩) | ⟨_, rfl⟩) | rfl <;> trivial
  rw [observedLines, Lines.fit_append, fit_foldl, and_iff_left hroot, and_iff_right hheader]
  constructor
  · intro h index hran task htask
    have hmem : (if index ∈ ran then (calls index task).lines.append
        (calls index task).ending.lines else {}) ∈ slotLines tasks calls ran := by
      rw [slotLines, List.mem_mapIdx]
      obtain ⟨hindex, rfl⟩ := List.getElem?_eq_some_iff.mp htask
      exact ⟨index, hindex, rfl⟩
    have hfit := h _ hmem
    rw [if_pos hran, Lines.fit_append] at hfit
    exact hfit.1
  · intro h l hl
    rw [slotLines, List.mem_mapIdx] at hl
    obtain ⟨index, hindex, rfl⟩ := hl
    split
    · rename_i hran
      rw [Lines.fit_append]
      exact ⟨h index hran _ (List.getElem?_eq_getElem hindex), Ending.fit_lines _⟩
    · exact Lines.fit_empty

end Run

end ExeCell.Package
