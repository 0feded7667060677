import ExeCell.Package.StorageCompare
import ExeCell.Package.StorageFailures

/-!
# Histories of stored observations

What one connection has stored, call by call, as a log beside the tables (`History`): a
`store` that throws behind its `COMMIT` is in it as well. The tables are numbered and hold
what the log says, as it was bound (`History.recorded`), so that questions about the rows
are questions about the log. The version that `previous_version` names before a `store` is
the one `compare` finds after it (`previous_compared`).
-/

namespace ExeCell.Package.Storage

open RowidTable (Table Picker)
open WriteLock (File)

/-- An observation with the values that `store` was called with. -/
structure Stored where
  id : Int
  identity : PackageIdentity
  events : List Event
  deriving DecidableEq, Repr

/-- The tables after calls of `store`, and what these have left there; a call may return or
throw. -/
inductive History (sqlite : Sqlite) : Tables → List Stored → Prop where
  | start : History sqlite migrated []
  | store {tables after : Tables} {log : List Stored} {failing : Option Nat}
      {identity : PackageIdentity} {events : List Event} {id : Int}
      (h : History sqlite tables log)
      (hstore : (Storage.store sqlite () failing identity events ⟨tables, none⟩).1 = ⟨after, none⟩)
      (hinserted : inserted sqlite.picker tables identity events = some (id, after)) :
      History sqlite after (log ++ [⟨id, identity, events⟩])

section History

variable {sqlite : Sqlite} {picker : Picker} {tables after : Tables} {log : List Stored}
  {failing : Option Nat} {identity : PackageIdentity} {events : List Event} {id : Int}
  {observation : Observation}

/-- Every call of `store` leads from a history to a history. -/
theorem history_store (h : History sqlite tables log) (failing : Option Nat)
    (identity : PackageIdentity) (events : List Event) :
    (∃ what, store sqlite () failing identity events ⟨tables, none⟩ =
        (⟨tables, none⟩, .error what)) ∨
      ∃ id after, (store sqlite () failing identity events ⟨tables, none⟩).1 = ⟨after, none⟩ ∧
        History sqlite after (log ++ [⟨id, identity, events⟩]) := by
  rcases store_cases sqlite () failing identity events ⟨tables, none⟩ with
    ⟨_, what, hstore⟩ | ⟨_, _, id, after, _, hinserted, _, ⟨_, what, hstore⟩ | ⟨_, hstore⟩⟩
  · exact .inl ⟨what, hstore⟩
  · have hfile := congrArg Prod.fst hstore
    exact .inr ⟨id, after, hfile, .store h hfile hinserted⟩
  · have hfile := congrArg Prod.fst hstore
    exact .inr ⟨id, after, hfile, .store h hfile hinserted⟩

/-- A `store` that returns has inserted its rows, under the id it returns. -/
theorem inserted_of_returned
    (h : store sqlite () failing identity events ⟨tables, none⟩ = (⟨after, none⟩, .ok observation)) :
    inserted sqlite.picker tables identity events = some (observation.id, after) := by
  rcases store_cases sqlite () failing identity events ⟨tables, none⟩ with
    ⟨_, what, hstore⟩ | ⟨_, _, id, after', _, hinserted, _, ⟨_, what, hstore⟩ | ⟨_, hstore⟩⟩
  · rw [h] at hstore
    cases (Prod.mk.inj hstore).2
  · rw [h] at hstore
    cases (Prod.mk.inj hstore).2
  · rw [h] at hstore
    obtain ⟨hfile, hresult⟩ := Prod.mk.inj hstore
    rw [Except.ok.inj hresult, (File.mk.inj hfile).1]
    exact hinserted

/-! ## The rows of a history -/

theorem insertEvents_numbered {rows rows' : Table EventRow} (hnumbered : rows.Numbered)
    (h : insertEvents picker id events rows = some rows') :
    rows'.Numbered ∧ rows'.rows.map Prod.snd = rows.rows.map Prod.snd ++ events.map (eventRow id) := by
  induction events generalizing rows with
  | nil =>
    rw [insertEvents] at h
    rw [← Option.some.inj h, List.map_nil, List.append_nil]
    exact ⟨hnumbered, rfl⟩
  | cons event events ih =>
    rw [insertEvents] at h
    cases hinsert : rows.insert picker (eventRow id event) with
    | none =>
      rw [hinsert] at h
      cases h
    | some first =>
      rw [hinsert] at h
      obtain ⟨_, hrows, hnumbered'⟩ := hnumbered.insert hinsert
      obtain ⟨hall, hvalues⟩ := ih hnumbered' h
      refine ⟨hall, ?_⟩
      rw [hvalues, hrows, List.map_append, List.append_assoc]
      rfl

/-- What a row says of an observation: its id and its identity. -/
def rowKey (entry : Int × ObservationRow) : Int × PackageIdentity :=
  (entry.1, entry.2.toPackageIdentity)

def storedKey (stored : Stored) : Int × PackageIdentity :=
  (stored.id, bindIdentity stored.identity)

/-- The tables hold what the log says. -/
structure Recorded (tables : Tables) (log : List Stored) (observations : Table ObservationRow)
    (rows : Table EventRow) : Prop where
  observations_eq : tables.observations = some observations
  events_eq : tables.events = some rows
  numbered : observations.Numbered
  eventsNumbered : rows.Numbered
  keys : observations.rows.map rowKey = log.map storedKey
  values : rows.rows.map Prod.snd = log.flatMap fun stored => stored.events.map (eventRow stored.id)

theorem Recorded.store {observations : Table ObservationRow} {rows : Table EventRow}
    (h : Recorded tables log observations rows)
    (hinserted : inserted sqlite.picker tables identity events = some (id, after)) :
    ∃ observations' rows', Recorded after (log ++ [⟨id, identity, events⟩]) observations' rows' ∧
      observations'.rows = observations.rows ++ [(id, observationRow observations identity)] := by
  obtain ⟨observations₁, observations', rows₁, rows', hobservations, hrows, hinsert, hevents,
    rfl⟩ := inserted_eq_some_iff.mp hinserted
  rw [h.observations_eq] at hobservations
  rw [h.events_eq] at hrows
  obtain rfl := Option.some.inj hobservations
  obtain rfl := Option.some.inj hrows
  obtain ⟨_, hlast, hnumbered⟩ := h.numbered.insert hinsert
  obtain ⟨hevents', hvalues⟩ := insertEvents_numbered h.eventsNumbered hevents
  refine ⟨observations', rows', ⟨rfl, rfl, hnumbered, hevents', ?_, ?_⟩, hlast⟩
  · rw [hlast, List.map_append, List.map_append, h.keys]
    rfl
  · rw [hvalues, h.values, List.flatMap_append, List.flatMap_singleton]

theorem History.recorded (h : History sqlite tables log) :
    ∃ observations rows, Recorded tables log observations rows := by
  induction h with
  | start => exact ⟨∅, ∅, rfl, rfl, Table.numbered_empty, Table.numbered_empty, rfl, rfl⟩
  | store _ _ hinserted ih =>
    obtain ⟨observations, rows, hrecorded⟩ := ih
    obtain ⟨observations', rows', hrecorded', _⟩ := hrecorded.store hinserted
    exact ⟨observations', rows', hrecorded'⟩

namespace Recorded

variable {observations : Table ObservationRow} {rows : Table EventRow} {stored stored' : Stored}

/-- The last row with a property is that of the last entry with it. -/
theorem find (h : Recorded tables log observations rows) (p : Int × PackageIdentity → Bool) :
    (observations.rows.reverse.find? fun entry => p (rowKey entry)).map rowKey =
      (log.reverse.find? fun stored => p (storedKey stored)).map storedKey := by
  have hreverse := congrArg (fun keys => keys.reverse.find? p) h.keys
  rw [← List.map_reverse, ← List.map_reverse, List.find?_map, List.find?_map] at hreverse
  exact hreverse

theorem ids_eq (h : Recorded tables log observations rows) :
    log.map Stored.id = observations.ids := by
  have hkeys := congrArg (List.map Prod.fst) h.keys
  rw [List.map_map, List.map_map] at hkeys
  exact hkeys.symm

theorem id_pos (h : Recorded tables log observations rows) (hstored : stored ∈ log) :
    1 ≤ stored.id := by
  have hmem : stored.id ∈ observations.ids := by
    rw [← h.ids_eq]
    exact List.mem_map_of_mem hstored
  exact ((h.numbered stored.id).mp hmem).1

theorem eq_of_id (h : Recorded tables log observations rows) (hstored : stored ∈ log)
    (hstored' : stored' ∈ log) (hid : stored.id = stored'.id) : stored = stored' := by
  have hnodup : (log.map Stored.id).Nodup := by
    rw [h.ids_eq, Table.ids]
    exact List.pairwise_map.mpr (observations.sorted.imp Int.ne_of_lt)
  exact List.inj_on_of_nodup_map hnodup hstored hstored' hid

end Recorded

/-! ## The version to compare with -/

/-- The last observation with the same name and another version. -/
def lastOther (log : List Stored) (name version : Text) : Option Stored :=
  log.reverse.find? fun stored =>
    cString stored.identity.name = name ∧ cString stored.identity.version ≠ version

variable {observations : Table ObservationRow} {rows : Table EventRow}
  {name version : Text} {stored : Stored}

theorem cString_cString (value : Text) : cString (cString value) = cString value :=
  cString_of_nulFree (ArchiveAdapter.CString.ofText value).nulFree

theorem lastOther_eq_some (h : lastOther log name version = some stored) :
    stored ∈ log ∧ cString stored.identity.name = name ∧
      cString stored.identity.version ≠ version := by
  have hstored := List.find?_some h
  rw [decide_eq_true_eq] at hstored
  exact ⟨List.mem_reverse.mp (List.mem_of_find?_eq_some h), hstored⟩

theorem previousVersion_eq (h : Recorded tables log observations rows) (hname : '\x00' ∉ name)
    (hversion : '\x00' ∉ version) :
    previousVersion observations name version =
      (lastOther log name version).map fun stored => cString stored.identity.version := by
  have hfind := h.find fun key => decide (key.2.name = name ∧ key.2.version ≠ version)
  have hversions := congrArg (Option.map fun key => cString key.2.version) hfind
  rw [Option.map_map, Option.map_map] at hversions
  rw [previousVersion, lastOther, cString_of_nulFree hname, cString_of_nulFree hversion]
  simp only [← Bool.decide_and]
  refine hversions.trans ?_
  congr 1
  funext stored
  exact cString_cString _

/-- The last observation of a version. -/
def lastStored (log : List Stored) (name version : Text) : Option Stored :=
  log.reverse.find? fun stored =>
    cString stored.identity.name = name ∧ cString stored.identity.version = version

theorem lastStored_eq_some (h : lastStored log name version = some stored) :
    stored ∈ log ∧ cString stored.identity.name = name ∧
      cString stored.identity.version = version := by
  have hstored := List.find?_some h
  rw [decide_eq_true_eq] at hstored
  exact ⟨List.mem_reverse.mp (List.mem_of_find?_eq_some h), hstored⟩

theorem lastStored_append (log : List Stored) (stored : Stored) (name version : Text) :
    lastStored (log ++ [stored]) name version =
      if cString stored.identity.name = name ∧ cString stored.identity.version = version then
        some stored
      else lastStored log name version := by
  rw [lastStored, List.reverse_append, List.reverse_singleton, List.singleton_append,
    List.find?_cons, lastStored]
  by_cases hstored : cString stored.identity.name = name ∧ cString stored.identity.version = version
  · rw [decide_eq_true hstored, if_pos hstored]
  · rw [decide_eq_false hstored, if_neg hstored]

/-- The last observation with another version is the last one with its version. -/
theorem lastStored_of_lastOther (h : lastOther log name version = some stored) :
    lastStored log name (cString stored.identity.version) = some stored := by
  obtain ⟨_, hname, hversion⟩ := lastOther_eq_some h
  obtain ⟨_, front, rest, hlog, hfront⟩ := List.find?_eq_some_iff_append.mp h
  refine List.find?_eq_some_iff_append.mpr ⟨?_, front, rest, hlog, ?_⟩
  · rw [decide_eq_true_eq]
    exact ⟨hname, rfl⟩
  · intro other hother
    have hskipped := hfront other hother
    rw [Bool.not_eq_true', decide_eq_false_iff_not] at hskipped ⊢
    rintro ⟨hname', hversion'⟩
    rw [hversion'] at hskipped
    exact hskipped ⟨hname', hversion⟩

/-- The latest row of a version is that of its last entry in the log. -/
theorem Recorded.latest (h : Recorded tables log observations rows)
    (hlast : lastStored log (cString name) version = some stored) :
    ∃ row, latest observations name version = some (stored.id, row) ∧
      row.toPackageIdentity = bindIdentity stored.identity := by
  have hfind := h.find fun key => decide (key.2.name = cString name ∧ key.2.version = version)
  have hentry : (log.reverse.find? fun stored => decide ((storedKey stored).2.name = cString name ∧
      (storedKey stored).2.version = version)) = some stored := hlast
  rw [hentry, Option.map_some, Option.map_eq_some_iff] at hfind
  obtain ⟨⟨id, row⟩, hrow, hkey⟩ := hfind
  obtain ⟨rfl, hidentity⟩ := Prod.mk.inj hkey
  exact ⟨row, hrow, hidentity⟩

theorem Recorded.comparable {version' : Text} {stored' : Stored}
    (h : Recorded tables log observations rows) (hdiffers : version ≠ version')
    (hfirst : lastStored log (cString name) version = some stored)
    (hsecond : lastStored log (cString name) version' = some stored') :
    ∃ row row', row.toPackageIdentity = bindIdentity stored.identity ∧
      row'.toPackageIdentity = bindIdentity stored'.identity ∧
      Comparable observations name version version' (stored.id, row) (stored'.id, row') := by
  obtain ⟨row, hrow, hidentity⟩ := h.latest hfirst
  obtain ⟨row', hrow', hidentity'⟩ := h.latest hsecond
  have hpos := h.id_pos (lastStored_eq_some hfirst).1
  have hpos' := h.id_pos (lastStored_eq_some hsecond).1
  refine ⟨row, row', hidentity, hidentity', hdiffers, hrow, hrow', ?_, ?_⟩
  · change stored.id ≠ 0
    omega
  · change stored'.id ≠ 0
    omega

/-- `previous_version` names the version of the last other observation, and after the `store`
this observation is compared with the new one. -/
theorem previous_compared (h : History sqlite tables log) (hname : '\x00' ∉ identity.name)
    (hversion : '\x00' ∉ identity.version)
    (hstore : store sqlite () failing identity events ⟨tables, none⟩ =
      (⟨after, none⟩, .ok observation)) :
    ∃ observations observations' rows',
      tables.observations = some observations ∧ after.observations = some observations' ∧
      after.events = some rows' ∧
      previousVersion observations identity.name identity.version =
        (lastOther log identity.name identity.version).map
          (fun stored => cString stored.identity.version) ∧
      ∀ stored, lastOther log identity.name identity.version = some stored →
        ∃ row row', (stored.id, row) ∈ observations'.rows ∧
          row.toPackageIdentity = bindIdentity stored.identity ∧
          (observation.id, row') ∈ observations'.rows ∧
          row'.toPackageIdentity = bindIdentity identity ∧
          compare observations' rows' identity.name (cString stored.identity.version)
              identity.version =
            deltaOf rows' (sideOf (stored.id, row)) (sideOf (observation.id, row'))
              (decide (row.baseline ≠ 0)) := by
  obtain ⟨observations, rows, hrecorded⟩ := h.recorded
  have hinserted := inserted_of_returned hstore
  obtain ⟨observations', rows', hrecorded', _⟩ := hrecorded.store hinserted
  refine ⟨observations, observations', rows', hrecorded.observations_eq,
    hrecorded'.observations_eq, hrecorded'.events_eq, previousVersion_eq hrecorded hname hversion, ?_⟩
  intro stored hother
  obtain ⟨_, _, hdiffers⟩ := lastOther_eq_some hother
  have hnew : cString identity.version ≠ cString stored.identity.version := by
    rw [cString_of_nulFree hversion]
    exact hdiffers.symm
  have hfirst := lastStored_append log ⟨observation.id, identity, events⟩ (cString identity.name)
    (cString stored.identity.version)
  have hsecond := lastStored_append log ⟨observation.id, identity, events⟩
    (cString identity.name) identity.version
  rw [if_neg fun hboth => hnew hboth.2, cString_of_nulFree hname,
    lastStored_of_lastOther hother, ← cString_of_nulFree hname] at hfirst
  rw [if_pos ⟨rfl, cString_of_nulFree hversion⟩] at hsecond
  obtain ⟨row, row', hidentity, hidentity', hcomparable⟩ :=
    hrecorded'.comparable hdiffers hfirst hsecond
  exact ⟨row, row', (latest_eq_some hcomparable.first).1, hidentity,
    (latest_eq_some hcomparable.second).1, hidentity',
    hcomparable.compare_eq rows' (ArchiveAdapter.CString.ofText _).nulFree hversion⟩

end History

/-- A version without events in a database of its own. -/
def tool (version : String) : PackageIdentity where
  name := "tool".toList
  version := version.toList

/-- The tables after a `store` that returns. -/
def stored (tables : Tables) (identity : PackageIdentity) (events : List Event) : Tables :=
  (store plainSqlite () none identity events ⟨tables, none⟩).1.committed

/-- A version, a later one, and the first one again. -/
def reverted : Tables :=
  stored (stored (stored migrated (tool "1") []) (tool "2") []) (tool "1") []

theorem History.stored {tables : Tables} {log : List Stored} (h : History plainSqlite tables log)
    (identity : PackageIdentity) (events : List Event) (observation : Observation)
    (hstore : Storage.store plainSqlite () none identity events ⟨tables, none⟩ =
      (⟨Storage.stored tables identity events, none⟩, .ok observation)) :
    History plainSqlite (Storage.stored tables identity events)
      (log ++ [⟨observation.id, identity, events⟩]) :=
  .store h (congrArg Prod.fst hstore) (inserted_of_returned hstore)

theorem history_reverted :
    History plainSqlite reverted [⟨1, tool "1", []⟩, ⟨2, tool "2", []⟩, ⟨3, tool "1", []⟩] :=
  ((History.start.stored (tool "1") [] ⟨1, true⟩ rfl).stored (tool "2") [] ⟨2, false⟩ rfl).stored
    (tool "1") [] ⟨3, false⟩ rfl

/-- The second version is then compared with the third observation. -/
theorem previous_compared_reverted :
    ∃ observations' rows' row row', (stored reverted (tool "2") []).observations = some observations' ∧
      (stored reverted (tool "2") []).events = some rows' ∧
      compare observations' rows' "tool".toList "1".toList "2".toList =
        deltaOf rows' (sideOf (3, row)) (sideOf (4, row')) (decide (row.baseline ≠ 0)) := by
  have hstore : store plainSqlite () none (tool "2") [] ⟨reverted, none⟩ =
      (⟨stored reverted (tool "2") [], none⟩, .ok ⟨4, false⟩) := rfl
  obtain ⟨_, observations', rows', _, hobservations, hrows, _, hcompared⟩ :=
    previous_compared history_reverted (by decide) (by decide) hstore
  obtain ⟨row, row', _, _, _, _, heq⟩ := hcompared ⟨3, tool "1", []⟩ rfl
  exact ⟨observations', rows', row, row', hobservations, hrows, heq⟩

end ExeCell.Package.Storage
