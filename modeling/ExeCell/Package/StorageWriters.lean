import ExeCell.Lib.Machine
import ExeCell.Lib.Search
import ExeCell.Package.StorageFailures

/-!
# Several connections that store

Any number of connections to one file call `store`, in any interleaving of the calls they
make of SQLite, every one of which can fail (`World.step`). Between its `BEGIN IMMEDIATE`
and its `COMMIT` a connection works alone, and rows are only added; so the flag that the
insertion computes marks the first row of every name (`baseline_once`).
-/

namespace ExeCell.Package.Storage

open RowidTable (Table Picker)
open WriteLock (File)

/-! ## The connections -/

/-- A call of `store` that is under way: what is left to be called, and what it keeps. -/
structure Session where
  identity : PackageIdentity
  rest : List Call
  kept : Local := {}

/-- The file, what each connection is doing, and what has been returned. -/
structure World (κ : Type) where
  file : File κ Tables
  sessions : κ → Option Session := fun _ => none
  returned : List (PackageIdentity × Observation) := []

/-- What happens next: a connection calls `store`, the next call of its `store` succeeds or
fails, or `store` returns. -/
inductive Move (κ : Type) where
  | call (c : κ) (identity : PackageIdentity) (events : List Event)
  | next (c : κ)
  | fail (c : κ)
  | finish (c : κ)
  deriving DecidableEq

variable {κ : Type} [DecidableEq κ]

/-- The connection goes on with another session, or with none. -/
def World.put (w : World κ) (c : κ) (file : File κ Tables) (session : Option Session) : World κ :=
  { w with file := file, sessions := Function.update w.sessions c session }

def World.step (sqlite : Sqlite) (w : World κ) : Move κ → Option (Unit × World κ)
  | .call c identity events =>
    match w.sessions c with
    | some _ => none
    | none => some ((), w.put c w.file (some ⟨identity, .beginImmediate :: storeCalls identity events, {}⟩))
  | .next c =>
    match w.sessions c with
    | some ⟨identity, call :: rest, kept⟩ =>
      match execute sqlite c call (w.file, kept) with
      | none => none
      | some (file, kept) => some ((), w.put c file (some ⟨identity, rest, kept⟩))
    | _ => none
  -- the first call is made outside the `try` block
  | .fail c =>
    match w.sessions c with
    | some ⟨_, .beginImmediate :: _, _⟩ => some ((), w.put c w.file none)
    | some ⟨_, _ :: _, _⟩ => some ((), w.put c (w.file.rollback c) none)
    | _ => none
  | .finish c =>
    match w.sessions c with
    | some ⟨identity, [], kept⟩ =>
      some ((), { w.put c w.file none with
        returned := w.returned ++ [(identity, ⟨kept.id, kept.baseline⟩)] })
    | _ => none

/-- The connections before they store anything, on a migrated file. -/
def World.start : World κ where
  file := { committed := migrated }

/-! ## The rows of a file -/

def observationRows (tables : Tables) : List (Int × ObservationRow) :=
  match tables.observations with
  | none => []
  | some table => table.rows

/-- The flag is set for the first row of a name. -/
def BaselineFirst (rows : List (Int × ObservationRow)) : Prop :=
  ∀ entry ∈ rows, (entry.2.baseline ≠ 0 ↔
    ∀ other ∈ rows, other.2.name = entry.2.name → entry.1 ≤ other.1)

/-- The observations are numbered, and the flags are right. -/
def Good (tables : Tables) : Prop :=
  ∀ table, tables.observations = some table → table.Numbered ∧ BaselineFirst table.rows

/-- Rows are only added. -/
def Grows (before after : Tables) : Prop :=
  ∀ entry ∈ observationRows before, entry ∈ observationRows after

theorem Grows.refl (tables : Tables) : Grows tables tables := fun _ h => h

theorem Grows.trans {a b c : Tables} (h : Grows a b) (h' : Grows b c) : Grows a c :=
  fun entry hentry => h' entry (h entry hentry)

theorem good_migrated : Good migrated := by
  intro table htable
  obtain rfl := Option.some.inj htable
  exact ⟨Table.numbered_empty, nofun⟩

section Rows

variable {sqlite : Sqlite} {picker : Picker} {table table' : Table ObservationRow}
  {identity : PackageIdentity} {id : Int} {tables tables' : Tables} {kept kept' : Local}
  {call : Call}

theorem isBaseline_iff (table : Table ObservationRow) (name : Text) :
    isBaseline table name = true ↔ ∀ entry ∈ table.rows, entry.2.name ≠ cString name := by
  unfold isBaseline
  simp only [List.all_eq_true, decide_eq_true_eq]

theorem baseline_observationRow : (observationRow table identity).baseline ≠ 0 ↔
    isBaseline table identity.name = true := by
  rw [observationRow]
  dsimp only
  cases isBaseline table identity.name <;> decide

/-- A row behind all others gets the flag when it is the first of its name. -/
theorem good_insert (hnumbered : table.Numbered) (hfirst : BaselineFirst table.rows)
    (hinsert : table.insert picker (observationRow table identity) = some (id, table')) :
    table'.Numbered ∧ BaselineFirst table'.rows := by
  obtain ⟨_, hrows, hnumbered'⟩ := hnumbered.insert hinsert
  have hlt := hnumbered.lt_of_insert hinsert
  refine ⟨hnumbered', ?_⟩
  rw [hrows]
  intro entry hentry
  rcases List.mem_append.mp hentry with hold | hnew
  · rw [hfirst entry hold]
    constructor
    · intro h other hother hname
      rcases List.mem_append.mp hother with hother | hother
      · exact h other hother hname
      · have hid := hlt entry hold
        rw [List.mem_singleton.mp hother]
        omega
    · exact fun h other hother => h other (List.mem_append_left _ hother)
  · rw [List.mem_singleton.mp hnew]
    dsimp only
    rw [baseline_observationRow, isBaseline_iff]
    have hname : (observationRow table identity).name = cString identity.name := rfl
    rw [hname]
    constructor
    · intro h other hother hsame
      rcases List.mem_append.mp hother with hother | hother
      · exact absurd hsame (h other hother)
      · rw [List.mem_singleton.mp hother]
    · intro h other hother hsame
      have hle := h other (List.mem_append_left _ hother) hsame
      have hid := hlt other hother
      omega

theorem perform_insertObservation
    (h : perform sqlite (.insertObservation identity) (tables, kept) = some (tables', kept')) :
    ∃ table table', tables.observations = some table ∧
      table.insert sqlite.picker (observationRow table identity) = some (kept'.id, table') ∧
      tables'.observations = some table' := by
  unfold perform at h
  dsimp only at h
  split at h
  · cases h
  · rename_i table htable
    obtain ⟨⟨id, table'⟩, hinsert, hstate⟩ := Option.map_eq_some_iff.mp h
    obtain ⟨rfl, rfl⟩ := Prod.mk.inj hstate
    exact ⟨table, table', htable, hinsert, rfl⟩

theorem perform_selectBaseline
    (h : perform sqlite .selectBaseline (tables, kept) = some (tables', kept')) :
    kept'.id = kept.id ∧ ∀ row, (kept.id, row) ∈ observationRows tables →
      (kept'.baseline = true ↔ row.baseline ≠ 0) := by
  unfold perform at h
  dsimp only at h
  split at h
  · cases h
  · rename_i table htable
    obtain ⟨_, rfl⟩ := Prod.mk.inj (Option.some.inj h)
    refine ⟨rfl, ?_⟩
    intro row hrow
    rw [observationRows, htable] at hrow
    dsimp only
    rw [Table.find_eq_some_iff.mpr hrow, decide_eq_true_eq]

/-- What a call within a transaction does to the observations, and to the id that is kept. -/
theorem perform_cases (h : perform sqlite call (tables, kept) = some (tables', kept')) :
    (tables'.observations = tables.observations ∧ kept'.id = kept.id) ∨
      (tables.observations = none ∧ tables'.observations = some ∅ ∧ kept'.id = kept.id) ∨
      ∃ identity table table', call = .insertObservation identity ∧
        tables.observations = some table ∧
        table.insert sqlite.picker (observationRow table identity) = some (kept'.id, table') ∧
        tables'.observations = some table' := by
  cases call with
  | insertObservation identity =>
    obtain ⟨table, table', hinsertion⟩ := perform_insertObservation h
    exact .inr (.inr ⟨identity, table, table', rfl, hinsertion⟩)
  | createObservations =>
    obtain ⟨hnone, hstate⟩ := Option.ite_none_left_eq_some.mp h
    obtain ⟨rfl, rfl⟩ := Prod.mk.inj (Option.some.inj hstate)
    rw [Option.not_isSome_iff_eq_none] at hnone
    exact .inr (.inl ⟨hnone, rfl, rfl⟩)
  | prepare query =>
    obtain ⟨_, hstate⟩ := Option.ite_none_right_eq_some.mp h
    obtain ⟨rfl, rfl⟩ := Prod.mk.inj (Option.some.inj hstate)
    exact .inl ⟨rfl, rfl⟩
  | createEvents =>
    obtain ⟨_, hstate⟩ := Option.ite_none_left_eq_some.mp h
    obtain ⟨rfl, rfl⟩ := Prod.mk.inj (Option.some.inj hstate)
    exact .inl ⟨rfl, rfl⟩
  | createIndex =>
    obtain ⟨_, hstate⟩ := Option.ite_none_right_eq_some.mp h
    obtain ⟨rfl, rfl⟩ := Prod.mk.inj (Option.some.inj hstate)
    exact .inl ⟨rfl, rfl⟩
  | insertMigration =>
    unfold perform at h
    dsimp only at h
    split at h
    · cases h
    · obtain ⟨_, hstate⟩ := Option.ite_none_left_eq_some.mp h
      obtain ⟨rfl, rfl⟩ := Prod.mk.inj (Option.some.inj hstate)
      exact .inl ⟨rfl, rfl⟩
  | insertEvent event =>
    unfold perform at h
    dsimp only at h
    split at h
    · cases h
    · obtain ⟨_, _, hstate⟩ := Option.map_eq_some_iff.mp h
      obtain ⟨rfl, rfl⟩ := Prod.mk.inj hstate
      exact .inl ⟨rfl, rfl⟩
  | selectVersion =>
    obtain ⟨_, _, hstate⟩ := Option.map_eq_some_iff.mp h
    obtain ⟨rfl, rfl⟩ := Prod.mk.inj hstate
    exact .inl ⟨rfl, rfl⟩
  | selectBaseline =>
    have htables := @perform_of_not_writes sqlite .selectBaseline tables kept rfl _ h
    exact .inl ⟨congrArg Tables.observations htables, (perform_selectBaseline h).1⟩
  | createMigrations | pragma | beginImmediate | commit | bindText | bindInteger | reset
  | clearBindings =>
    obtain ⟨rfl, rfl⟩ := Prod.mk.inj (Option.some.inj h)
    exact .inl ⟨rfl, rfl⟩

theorem observationRows_of_some (h : tables.observations = some table) :
    observationRows tables = table.rows := by
  rw [observationRows, h]

theorem perform_grows (h : perform sqlite call (tables, kept) = some (tables', kept')) :
    Grows tables tables' ∧ (Good tables → Good tables') := by
  rcases perform_cases h with ⟨hsame, _⟩ | ⟨hnone, hempty, _⟩ |
      ⟨identity, table, table', _, htable, hinsert, htable'⟩
  · unfold Grows Good observationRows
    rw [hsame]
    exact ⟨fun _ hentry => hentry, id⟩
  · refine ⟨?_, fun _ table htable => ?_⟩
    · unfold Grows observationRows
      rw [hnone]
      nofun
    · rw [hempty] at htable
      obtain rfl := Option.some.inj htable
      exact ⟨Table.numbered_empty, nofun⟩
  · refine ⟨?_, fun hgood other hother => ?_⟩
    · unfold Grows
      rw [observationRows_of_some htable, observationRows_of_some htable']
      exact fun entry hentry => (mem_of_insert hinsert).mpr (.inr hentry)
    · rw [htable'] at hother
      obtain rfl := Option.some.inj hother
      obtain ⟨hnumbered, hfirst⟩ := hgood table htable
      exact good_insert hnumbered hfirst hinsert

end Rows

/-! ## One call of a connection -/

section Execute

variable {sqlite : Sqlite} {c : κ} {call : Call} {file file' : File κ Tables} {kept kept' : Local}

/-- What a call of one connection leaves of the file for the others. -/
structure Frame (c : κ) (file file' : File κ Tables) : Prop where
  sound : file.Sound Good Grows → file'.Sound Good Grows
  grows : file.Sound Good Grows → Grows file.committed file'.committed
  others : ∀ other ≠ c, ∀ copy, file.writer = some (other, copy) →
    file'.writer = some (other, copy)

omit [DecidableEq κ] in
theorem Frame.refl (c : κ) (file : File κ Tables) : Frame c file file :=
  ⟨id, fun _ => Grows.refl _, fun _ _ _ h => h⟩

theorem frame_rollback (c : κ) (file : File κ Tables) : Frame c file (file.rollback c) where
  sound h := h.rollback c
  grows _ := by
    rw [File.rollback_committed]
    exact Grows.refl _
  others _ hne _ h := File.rollback_other hne h

omit [DecidableEq κ] in
theorem frame_acquire (h : file.acquire c = some file') : Frame c file file' := by
  obtain ⟨hnone, hfile⟩ := File.acquire_eq_some_iff.mp h
  refine ⟨fun hsound => hsound.acquire Grows.refl h, ?_, ?_⟩
  · intro _
    rw [hfile]
    exact Grows.refl _
  · intro other _ copy hwriter
    rw [hnone] at hwriter
    cases hwriter

theorem frame_commit (h : file.commit c = some file') : Frame c file file' := by
  refine ⟨fun hsound => (hsound.commit h).1, fun hsound => (hsound.commit h).2, ?_⟩
  intro other hne copy hwriter
  obtain ⟨_, howner, _⟩ := File.commit_eq_some_iff.mp h
  rw [hwriter] at howner
  exact absurd (Prod.mk.inj (Option.some.inj howner)).1 hne

/-- The copy gets what the call does to the tables. -/
theorem frame_write {tables : Tables}
    (hperform : perform sqlite call (file.seen c, kept) = some (tables, kept'))
    (h : file.write c tables = some file') : Frame c file file' := by
  obtain ⟨copy, hwriter, hfile⟩ := File.write_eq_some_iff.mp h
  rw [File.seen_of_writer hwriter] at hperform
  obtain ⟨hgrows, hgood⟩ := perform_grows hperform
  refine ⟨?_, ?_, ?_⟩
  · intro hsound
    exact hsound.write hwriter (hgood (hsound.copy c copy hwriter).1)
      (fun hfrom => hfrom.trans hgrows) h
  · intro _
    rw [hfile]
    exact Grows.refl _
  · intro other hne held hother
    rw [hwriter] at hother
    exact absurd (Prod.mk.inj (Option.some.inj hother)).1.symm hne

theorem frame_inner (hinner : call.inner = true)
    (h : execute sqlite c call (file, kept) = some (file', kept')) : Frame c file file' := by
  rw [execute_inner hinner] at h
  cases hperform : perform sqlite call (file.seen c, kept) with
  | none =>
    rw [hperform] at h
    cases h
  | some next =>
    obtain ⟨tables, kept''⟩ := next
    rw [hperform] at h
    dsimp only at h
    split at h
    · obtain ⟨file'', hwrite, heq⟩ := Option.map_eq_some_iff.mp h
      obtain ⟨rfl, rfl⟩ := Prod.mk.inj heq
      exact frame_write hperform hwrite
    · obtain ⟨rfl, rfl⟩ := Prod.mk.inj (Option.some.inj h)
      exact Frame.refl c file

theorem frame_execute (h : execute sqlite c call (file, kept) = some (file', kept')) :
    Frame c file file' := by
  cases call with
  | beginImmediate =>
    obtain ⟨file'', hacquire, heq⟩ := Option.map_eq_some_iff.mp h
    obtain ⟨rfl, rfl⟩ := Prod.mk.inj heq
    exact frame_acquire hacquire
  | commit =>
    obtain ⟨file'', hcommit, heq⟩ := Option.map_eq_some_iff.mp h
    obtain ⟨rfl, rfl⟩ := Prod.mk.inj heq
    exact frame_commit hcommit
  | _ => exact frame_inner rfl h

end Execute

/-! ## Where a `store` is -/

/-- Calls between the insertion of the observation and `COMMIT`. -/
def Call.between : Call → Bool
  | .beginImmediate | .commit | .insertObservation _ => false
  | _ => true

/-- The row of an observation is there. -/
def HasRow (rows : List (Int × ObservationRow)) (identity : PackageIdentity) (id : Int) : Prop :=
  ∃ entry ∈ rows, entry.1 = id ∧ entry.2.name = cString identity.name

/-- The row is there, and has the flag that was read. -/
def HasFlag (rows : List (Int × ObservationRow)) (identity : PackageIdentity)
    (observation : Observation) : Prop :=
  ∃ entry ∈ rows, entry.1 = observation.id ∧ entry.2.name = cString identity.name ∧
    (observation.baseline = true ↔ entry.2.baseline ≠ 0)

/-- How far a `store` has come, by the calls that are left. -/
inductive Stage (file : File κ Tables) (c : κ) (identity : PackageIdentity) :
    List Call → Local → Prop where
  | waiting (events : List Event) (kept : Local) :
      Stage file c identity (.beginImmediate :: storeCalls identity events) kept
  | before {front mid : List Call} {copy : Tables} {kept : Local}
      (hfront : ∀ call ∈ front, call.inner = true) (hmid : ∀ call ∈ mid, call.between = true)
      (hwriter : file.writer = some (c, copy)) :
      Stage file c identity (front ++ .insertObservation identity :: mid ++ .commit :: baselineCalls)
        kept
  | inside {mid : List Call} {copy : Tables} {kept : Local}
      (hmid : ∀ call ∈ mid, call.between = true) (hwriter : file.writer = some (c, copy))
      (hrow : HasRow (observationRows copy) identity kept.id) :
      Stage file c identity (mid ++ .commit :: baselineCalls) kept
  | behind {front : List Call} {kept : Local}
      (hfront : ∀ call ∈ front, call.between = true ∧ call.writes = false)
      (hrow : HasRow (observationRows file.committed) identity kept.id) :
      Stage file c identity (front ++ [.selectBaseline]) kept
  | read {kept : Local}
      (hflag : HasFlag (observationRows file.committed) identity ⟨kept.id, kept.baseline⟩) :
      Stage file c identity [] kept

section Stage

variable {sqlite : Sqlite} {c other : κ} {call : Call} {calls : List Call}
  {file file' : File κ Tables} {kept kept' : Local} {identity : PackageIdentity} {copy : Tables}

theorem inner_of_between (h : call.between = true) : call.inner = true := by
  cases call with
  | beginImmediate | commit => cases h
  | _ => rfl

theorem HasRow.grow {a b : Tables} {id : Int} (h : HasRow (observationRows a) identity id)
    (hgrows : Grows a b) : HasRow (observationRows b) identity id := by
  obtain ⟨entry, hentry, hrow⟩ := h
  exact ⟨entry, hgrows entry hentry, hrow⟩

theorem HasFlag.grow {a b : Tables} {observation : Observation}
    (h : HasFlag (observationRows a) identity observation) (hgrows : Grows a b) :
    HasFlag (observationRows b) identity observation := by
  obtain ⟨entry, hentry, hrow⟩ := h
  exact ⟨entry, hgrows entry hentry, hrow⟩

omit [DecidableEq κ] in
/-- The others do not bring a `store` back to an earlier stage. -/
theorem Stage.frame (h : Stage file c identity calls kept) (hne : c ≠ other)
    (hframe : Frame other file file') (hsound : file.Sound Good Grows) :
    Stage file' c identity calls kept := by
  cases h with
  | waiting events kept => exact .waiting events kept
  | before hfront hmid hwriter => exact .before hfront hmid (hframe.others c hne _ hwriter)
  | inside hmid hwriter hrow => exact .inside hmid (hframe.others c hne _ hwriter) hrow
  | behind hfront hrow => exact .behind hfront (hrow.grow (hframe.grows hsound))
  | read hflag => exact .read (hflag.grow (hframe.grows hsound))

theorem id_of_between (hbetween : call.between = true) {tables tables' : Tables}
    (h : perform sqlite call (tables, kept) = some (tables', kept')) : kept'.id = kept.id := by
  rcases perform_cases h with ⟨_, hid⟩ | ⟨_, _, hid⟩ | ⟨_, _, _, rfl, _⟩
  · exact hid
  · exact hid
  · cases hbetween

/-- A call of a connection in its transaction. -/
theorem execute_writer (hinner : call.inner = true) (hwriter : file.writer = some (c, copy))
    (h : execute sqlite c call (file, kept) = some (file', kept')) :
    ∃ copy', perform sqlite call (copy, kept) = some (copy', kept') ∧
      file'.writer = some (c, copy') := by
  rw [execute_inside hinner hwriter] at h
  obtain ⟨⟨copy', kept''⟩, hperform, heq⟩ := Option.map_eq_some_iff.mp h
  obtain ⟨rfl, rfl⟩ := Prod.mk.inj heq
  exact ⟨copy', hperform, rfl⟩

/-- A call that only reads. -/
theorem execute_reader (hinner : call.inner = true) (hreads : call.writes = false)
    (h : execute sqlite c call (file, kept) = some (file', kept')) :
    file' = file ∧ ∃ tables, perform sqlite call (file.seen c, kept) = some (tables, kept') := by
  rw [execute_inner hinner, hreads] at h
  cases hperform : perform sqlite call (file.seen c, kept) with
  | none =>
    rw [hperform] at h
    cases h
  | some next =>
    rw [hperform] at h
    obtain ⟨rfl, rfl⟩ := Prod.mk.inj (Option.some.inj h)
    exact ⟨rfl, next.1, rfl⟩

theorem grows_seen (hsound : file.Sound Good Grows) (c : κ) : Grows file.committed (file.seen c) := by
  cases hworking : file.working c with
  | none =>
    rw [File.seen_of_not_writer hworking]
    exact Grows.refl _
  | some copy =>
    have hwriter := File.working_eq_some_iff.mp hworking
    rw [File.seen_of_writer hwriter]
    exact (hsound.copy c copy hwriter).2

theorem between_events (events : List Event) :
    ∀ call ∈ .prepare .event :: events.flatMap eventCalls, call.between = true := by
  intro call hcall
  rw [List.mem_cons, List.mem_flatMap] at hcall
  rcases hcall with rfl | ⟨event, _, hevent⟩
  · rfl
  · have hall : ∀ call ∈ eventCalls event, call.between = true := by
      simp [eventCalls, Call.between]
    exact hall call hevent

/-- `BEGIN IMMEDIATE`. -/
theorem stage_begun (events : List Event)
    (hexecute : execute sqlite c .beginImmediate (file, kept) = some (file', kept')) :
    Stage file' c identity (storeCalls identity events) kept' := by
  obtain ⟨file'', hacquire, heq⟩ := Option.map_eq_some_iff.mp hexecute
  obtain ⟨rfl, rfl⟩ := Prod.mk.inj heq
  obtain ⟨_, hfile⟩ := File.acquire_eq_some_iff.mp hacquire
  refine .before ?_ (between_events events) (by rw [hfile])
  intro call hcall
  rcases List.mem_cons.mp hcall with rfl | hbind
  · rfl
  · rw [List.eq_of_mem_replicate hbind]
    rfl

/-- The row of the observation comes into the copy. -/
theorem stage_inserted {mid : List Call} (hmid : ∀ call ∈ mid, call.between = true)
    (hwriter : file.writer = some (c, copy))
    (hexecute : execute sqlite c (.insertObservation identity) (file, kept) =
      some (file', kept')) :
    Stage file' c identity (mid ++ .commit :: baselineCalls) kept' := by
  obtain ⟨copy', hperform, hwriter'⟩ := execute_writer rfl hwriter hexecute
  refine .inside hmid hwriter' ?_
  obtain ⟨table, table', _, hinsert, htable'⟩ := perform_insertObservation hperform
  unfold HasRow
  rw [observationRows_of_some htable']
  exact ⟨_, (mem_of_insert hinsert).mpr (.inl rfl), rfl, rfl⟩

/-- The copy becomes what is committed. -/
theorem stage_committed (hwriter : file.writer = some (c, copy))
    (hrow : HasRow (observationRows copy) identity kept.id)
    (hexecute : execute sqlite c .commit (file, kept) = some (file', kept')) :
    Stage file' c identity baselineCalls kept' := by
  obtain ⟨file'', hcommit, heq⟩ := Option.map_eq_some_iff.mp hexecute
  obtain ⟨rfl, rfl⟩ := Prod.mk.inj heq
  obtain ⟨copy', howner, hfile⟩ := File.commit_eq_some_iff.mp hcommit
  rw [hwriter] at howner
  obtain ⟨_, rfl⟩ := Prod.mk.inj (Option.some.inj howner)
  have hreads : ∀ call ∈ [Call.prepare .baseline, .bindInteger],
      call.between = true ∧ call.writes = false := by decide
  refine .behind hreads ?_
  rw [hfile]
  exact hrow

theorem stage_read (hsound : file.Sound Good Grows)
    (hrow : HasRow (observationRows file.committed) identity kept.id)
    (hexecute : execute sqlite c .selectBaseline (file, kept) = some (file', kept')) :
    Stage file' c identity [] kept' := by
  obtain ⟨rfl, tables, hperform⟩ := execute_reader rfl rfl hexecute
  obtain ⟨hid, hflag⟩ := perform_selectBaseline hperform
  obtain ⟨⟨id, row⟩, hentry, rfl, hname⟩ := hrow
  exact .read ⟨_, hentry, hid.symm, hname, hflag row (grows_seen hsound c _ hentry)⟩

/-- A call that succeeds brings a `store` to its next stage. -/
theorem Stage.next (h : Stage file c identity (call :: calls) kept)
    (hsound : file.Sound Good Grows)
    (hexecute : execute sqlite c call (file, kept) = some (file', kept')) :
    Stage file' c identity calls kept' := by
  generalize hall : call :: calls = all at h
  cases h with
  | waiting events =>
    obtain ⟨rfl, rfl⟩ := List.cons.inj hall
    exact stage_begun events hexecute
  | @before front mid copy _ hfront hmid hwriter =>
    cases front with
    | nil =>
      obtain ⟨rfl, rfl⟩ := List.cons.inj hall
      exact stage_inserted hmid hwriter hexecute
    | cons first front =>
      obtain ⟨rfl, rfl⟩ := List.cons.inj hall
      rw [List.forall_mem_cons] at hfront
      obtain ⟨copy', _, hwriter'⟩ := execute_writer hfront.1 hwriter hexecute
      exact .before hfront.2 hmid hwriter'
  | @inside mid copy _ hmid hwriter hrow =>
    cases mid with
    | nil =>
      obtain ⟨rfl, rfl⟩ := List.cons.inj hall
      exact stage_committed hwriter hrow hexecute
    | cons first mid =>
      obtain ⟨rfl, rfl⟩ := List.cons.inj hall
      rw [List.forall_mem_cons] at hmid
      obtain ⟨copy', hperform, hwriter'⟩ :=
        execute_writer (inner_of_between hmid.1) hwriter hexecute
      refine .inside hmid.2 hwriter' ?_
      rw [id_of_between hmid.1 hperform]
      exact hrow.grow (perform_grows hperform).1
  | @behind front _ hfront hrow =>
    cases front with
    | nil =>
      obtain ⟨rfl, rfl⟩ := List.cons.inj hall
      exact stage_read hsound hrow hexecute
    | cons first front =>
      obtain ⟨rfl, rfl⟩ := List.cons.inj hall
      rw [List.forall_mem_cons] at hfront
      obtain ⟨rfl, tables, hperform⟩ :=
        execute_reader (inner_of_between hfront.1.1) hfront.1.2 hexecute
      refine .behind hfront.2 ?_
      rw [id_of_between hfront.1.1 hperform]
      exact hrow
  | read => cases hall

end Stage

/-! ## Runs -/

/-- What holds between any two calls. -/
structure World.Inv (w : World κ) : Prop where
  sound : w.file.Sound Good Grows
  stages : ∀ c identity calls kept, w.sessions c = some ⟨identity, calls, kept⟩ →
    Stage w.file c identity calls kept
  returned : ∀ call ∈ w.returned, HasFlag (observationRows w.file.committed) call.1 call.2

section Runs

variable {sqlite : Sqlite} {w w' : World κ} {c : κ} {file : File κ Tables} {move : Move κ}

omit [DecidableEq κ] in
theorem inv_start : (World.start : World κ).Inv where
  sound := ⟨good_migrated, nofun⟩
  stages := nofun
  returned := nofun

/-- A connection has gone on, to the stage given. -/
theorem World.Inv.put (h : w.Inv) (hframe : Frame c w.file file) (session : Option Session)
    (hstage : ∀ identity calls kept, session = some ⟨identity, calls, kept⟩ →
      Stage file c identity calls kept) : (w.put c file session).Inv where
  sound := hframe.sound h.sound
  stages := by
    intro other identity calls kept hsession
    change Function.update w.sessions c session other = _ at hsession
    by_cases hother : other = c
    · subst hother
      rw [Function.update_self] at hsession
      exact hstage identity calls kept hsession
    · rw [Function.update_of_ne hother] at hsession
      exact (h.stages other identity calls kept hsession).frame hother hframe h.sound
  returned := by
    intro call hcall
    exact (h.returned call hcall).grow (hframe.grows h.sound)

theorem step_inv (h : w.Inv) {out : Unit} (hstep : w.step sqlite move = some (out, w')) : w'.Inv := by
  cases move with
  | call c identity events =>
    unfold World.step at hstep
    dsimp only at hstep
    split at hstep
    · cases hstep
    · obtain ⟨_, rfl⟩ := Prod.mk.inj (Option.some.inj hstep)
      refine h.put (Frame.refl c _) _ ?_
      intro identity' calls kept heq
      obtain ⟨rfl, rfl, rfl⟩ := Session.mk.inj (Option.some.inj heq)
      exact .waiting events {}
  | next c =>
    unfold World.step at hstep
    dsimp only at hstep
    split at hstep
    · rename_i identity call rest kept hsession
      have hstage := h.stages c identity _ kept hsession
      split at hstep
      · cases hstep
      · rename_i file kept' hexecute
        obtain ⟨_, rfl⟩ := Prod.mk.inj (Option.some.inj hstep)
        refine h.put (frame_execute hexecute) _ ?_
        intro identity' calls kept'' heq
        obtain ⟨rfl, rfl, rfl⟩ := Session.mk.inj (Option.some.inj heq)
        exact hstage.next h.sound hexecute
    · cases hstep
  | fail c =>
    unfold World.step at hstep
    dsimp only at hstep
    split at hstep
    · obtain ⟨_, rfl⟩ := Prod.mk.inj (Option.some.inj hstep)
      exact h.put (Frame.refl c _) none nofun
    · obtain ⟨_, rfl⟩ := Prod.mk.inj (Option.some.inj hstep)
      exact h.put (frame_rollback c _) none nofun
    · cases hstep
  | finish c =>
    unfold World.step at hstep
    dsimp only at hstep
    split at hstep
    · rename_i identity kept hsession
      have hstage := h.stages c identity _ kept hsession
      obtain ⟨_, rfl⟩ := Prod.mk.inj (Option.some.inj hstep)
      have hput := h.put (Frame.refl c w.file) none nofun
      refine ⟨hput.sound, hput.stages, ?_⟩
      intro call hcall
      rcases List.mem_append.mp hcall with hcall | hcall
      · exact h.returned call hcall
      · rw [List.mem_singleton.mp hcall]
        generalize hnil : ([] : List Call) = calls at hstage
        cases hstage with
        | read hflag => exact hflag
        | waiting => cases hnil
        | before => simp at hnil
        | inside => simp at hnil
        | behind => simp at hnil
    · cases hstep

theorem put_put (w : World κ) (c : κ) (file file' : File κ Tables) (session session' : Option Session) :
    (w.put c file session).put c file' session' = w.put c file' session' := by
  unfold World.put
  rw [Function.update_idem]

theorem put_session (w : World κ) (c : κ) (file : File κ Tables) (session : Option Session) :
    (w.put c file session).sessions c = session := Function.update_self ..

/-- Calls that succeed are steps of their connection. -/
theorem run_runCalls {calls more : List Call} {failing rest : Option Nat} {kept kept' : Local}
    {identity : PackageIdentity}
    (h : runCalls sqlite c calls failing (w.file, kept) = .ok (rest, file, kept'))
    (hsession : w.sessions c = some ⟨identity, calls ++ more, kept⟩) :
    ∃ outs, Machine.run (World.step sqlite) w (List.replicate calls.length (.next c)) =
      some (outs, w.put c file (some ⟨identity, more, kept'⟩)) := by
  induction calls generalizing w failing kept with
  | nil =>
    obtain ⟨_, hstate⟩ := Prod.mk.inj (Except.ok.inj h)
    obtain ⟨rfl, rfl⟩ := Prod.mk.inj hstate
    have hsame : w.put c w.file (some ⟨identity, more, kept⟩) = w := by
      unfold World.put
      rw [← List.nil_append more, ← hsession, Function.update_eq_self]
    rw [hsame]
    exact ⟨[], rfl⟩
  | cons call calls ih =>
    rw [runCalls] at h
    split at h
    · cases h
    cases hexecute : execute sqlite c call (w.file, kept) with
    | none =>
      rw [hexecute] at h
      cases h
    | some next =>
      rw [hexecute] at h
      have hstep : w.step sqlite (.next c) =
          some ((), w.put c next.1 (some ⟨identity, calls ++ more, next.2⟩)) := by
        unfold World.step
        dsimp only
        rw [hsession]
        dsimp only [List.cons_append]
        rw [hexecute]
      obtain ⟨outs, hrun⟩ := @ih (w.put c next.1 _) _ _ h (put_session w c _ _)
      rw [put_put] at hrun
      rw [List.length_cons, List.replicate_succ]
      exact ⟨() :: outs, Machine.run_cons.mpr ⟨(), _, outs, hstep, hrun, rfl⟩⟩

/-- A `store` that nobody disturbs is a run of its connection alone. -/
theorem run_store {identity : PackageIdentity} {events : List Event} {failing : Option Nat}
    {observation : Observation} (hidle : w.sessions c = none)
    (h : store sqlite c failing identity events w.file = (file, .ok observation)) :
    ∃ moves outs, Machine.run (World.step sqlite) w moves = some (outs,
      { w.put c file none with returned := w.returned ++ [(identity, observation)] }) := by
  rw [store] at h
  cases hbegin : runCalls sqlite c [.beginImmediate] failing (w.file, {}) with
  | error thrown =>
    rw [hbegin] at h
    cases h
  | ok begun =>
    obtain ⟨failing', file', kept'⟩ := begun
    rw [hbegin] at h
    dsimp only at h
    cases hcalls : runCalls sqlite c (storeCalls identity events) failing' (file', kept') with
    | error thrown =>
      rw [hcalls] at h
      cases h
    | ok ended =>
      obtain ⟨rest, file'', kept''⟩ := ended
      rw [hcalls] at h
      obtain ⟨rfl, hobservation⟩ := Prod.mk.inj h
      have hcall : w.step sqlite (.call c identity events) = some ((), w.put c w.file
          (some ⟨identity, .beginImmediate :: storeCalls identity events, {}⟩)) := by
        unfold World.step
        dsimp only
        rw [hidle]
      obtain ⟨_, hfirst⟩ := @run_runCalls _ _ sqlite (w.put c w.file _) c file' _
        (storeCalls identity events) _ _ _ _ identity hbegin (put_session w c _ _)
      rw [put_put] at hfirst
      obtain ⟨_, hrest⟩ := @run_runCalls _ _ sqlite (w.put c file' _) c file'' _ [] _ _ _ _
        identity hcalls (by rw [put_session, List.append_nil])
      rw [put_put] at hrest
      have hfinish : (w.put c file'' (some ⟨identity, [], kept''⟩)).step sqlite (.finish c) =
          some ((), { w.put c file'' none with
            returned := w.returned ++ [(identity, observation)] }) := by
        unfold World.step
        dsimp only
        rw [put_session]
        dsimp only
        rw [put_put, ← Except.ok.inj hobservation]
        rfl
      have hlast := Machine.run_cons.mpr ⟨(), _, [], hfinish, Machine.run_nil _, rfl⟩
      have hbehind := Machine.run_append.mpr ⟨_, _, hrest, _, hlast, rfl⟩
      have hall := Machine.run_append.mpr ⟨_, _, hfirst, _, hbehind, rfl⟩
      exact ⟨_, _, Machine.run_cons.mpr ⟨(), _, _, hcall, hall, rfl⟩⟩

/-- One of the observations of a name has the flag: the one with the smallest id. -/
def OneBaseline (rows : List (Int × ObservationRow)) (name : Text) : Prop :=
  ∃ first ∈ rows, first.2.name = name ∧ (∀ other ∈ rows, other.2.name = name → first.1 ≤ other.1) ∧
    ∀ other ∈ rows, other.2.name = name → (other.2.baseline ≠ 0 ↔ other = first)

theorem oneBaseline_of_good {table : Table ObservationRow} (hfirst : BaselineFirst table.rows)
    {entry : Int × ObservationRow} (hentry : entry ∈ table.rows) :
    OneBaseline table.rows entry.2.name := by
  have hexists : ∃ a ∈ table.rows, decide (a.2.name = entry.2.name) = true :=
    ⟨entry, hentry, by rw [decide_eq_true_eq]⟩
  obtain ⟨front, first, rest, hrows, hname, hnone⟩ := Search.exists_first hexists
  rw [decide_eq_true_eq] at hname
  have hmem : first ∈ table.rows := by
    rw [hrows]
    exact List.mem_append_right _ List.mem_cons_self
  have hleast : ∀ other ∈ table.rows, other.2.name = entry.2.name → first.1 ≤ other.1 := by
    intro other hother hsame
    have hsorted := table.sorted
    rw [hrows] at hother hsorted
    rw [List.pairwise_append, List.pairwise_cons] at hsorted
    rcases List.mem_append.mp hother with hother | hother
    · have hdiffers := hnone other hother
      rw [decide_eq_false_iff_not] at hdiffers
      exact absurd hsame hdiffers
    · rcases List.mem_cons.mp hother with rfl | hother
      · exact Int.le_refl _
      · have hlt := hsorted.2.1.1 other hother
        omega
  refine ⟨first, hmem, hname, hleast, ?_⟩
  intro other hother hsame
  rw [hfirst other hother, hsame]
  constructor
  · intro hfirstToo
    have hle := hleast other hother hsame
    have hge := hfirstToo first hmem hname
    exact Table.eq_of_mem hother hmem (by omega)
  · rintro rfl
    exact hleast

/-- Whatever several connections store, and whichever of their calls fail: every name in the
file has one baseline, its first observation, and `store` says so of that one alone. -/
theorem baseline_once {moves : List (Move κ)} {outs : List Unit}
    (h : Machine.run (World.step sqlite) World.start moves = some (outs, w)) :
    (∀ entry ∈ observationRows w.file.committed,
      OneBaseline (observationRows w.file.committed) entry.2.name) ∧
    ∀ call ∈ w.returned, ∃ entry ∈ observationRows w.file.committed,
      entry.1 = call.2.id ∧ entry.2.name = cString call.1.name ∧
        (call.2.baseline = true ↔ ∀ other ∈ observationRows w.file.committed,
          other.2.name = cString call.1.name → call.2.id ≤ other.1) := by
  have hinv : w.Inv := Machine.run_invariant World.Inv (fun _ _ _ _ hkept hstep => step_inv hkept hstep)
    inv_start h
  have hgood := hinv.sound.committed
  have hrows : ∀ entry ∈ observationRows w.file.committed, ∃ table,
      w.file.committed.observations = some table ∧
        observationRows w.file.committed = table.rows := by
    intro entry hentry
    cases htable : w.file.committed.observations with
    | none =>
      rw [observationRows, htable] at hentry
      cases hentry
    | some table => exact ⟨table, rfl, observationRows_of_some htable⟩
  refine ⟨?_, ?_⟩
  · intro entry hentry
    obtain ⟨table, htable, heq⟩ := hrows entry hentry
    rw [heq] at hentry ⊢
    exact oneBaseline_of_good (hgood table htable).2 hentry
  · intro call hcall
    obtain ⟨entry, hentry, hid, hname, hflag⟩ := hinv.returned call hcall
    obtain ⟨table, htable, heq⟩ := hrows entry hentry
    refine ⟨entry, hentry, hid, hname, ?_⟩
    rw [heq] at hentry ⊢
    rw [hflag, (hgood table htable).2 entry hentry, hname, hid]

/-- Two connections store a package: the second finds the file locked and tries again, and
the first reads its flag when both have committed. -/
def twoWriters : List (Move Bool) :=
  let first : PackageIdentity := { name := "tool".toList, version := "1".toList }
  let second : PackageIdentity := { name := "tool".toList, version := "2".toList }
  [Move.call true first [], Move.call false second [], Move.next true, Move.fail false] ++
    List.replicate 15 (Move.next true) ++ [Move.call false second []] ++
    List.replicate 16 (Move.next false) ++ List.replicate 3 (Move.next true) ++
    [Move.finish true] ++ List.replicate 3 (Move.next false) ++ [Move.finish false]

theorem baseline_once_twoWriters :
    ∃ outs w, Machine.run (World.step plainSqlite) World.start twoWriters = some (outs, w) ∧
      w.returned.map Prod.snd = [⟨1, true⟩, ⟨2, false⟩] ∧
      ∀ entry ∈ observationRows w.file.committed,
        OneBaseline (observationRows w.file.committed) entry.2.name := by
  have hreturned : (Machine.run (World.step plainSqlite) World.start twoWriters).map
      (fun result => result.2.returned.map Prod.snd) = some [⟨1, true⟩, ⟨2, false⟩] := by
    decide +kernel
  obtain ⟨⟨outs, w⟩, hrun, heq⟩ := Option.map_eq_some_iff.mp hreturned
  exact ⟨outs, w, hrun, heq, (baseline_once hrun).1⟩

end Runs

end ExeCell.Package.Storage
