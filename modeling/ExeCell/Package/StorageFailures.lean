import ExeCell.Package.Storage

/-!
# Storage operations whose calls fail

`store_cases` follows `store` through every call that can fail. Up to `COMMIT` a failure
leaves the tables alone; behind it the rows are there, whether the function returns or
throws (`storage_atomic_iff`). The migration makes no call behind its `COMMIT`.
-/

namespace ExeCell.Package.Storage

open RowidTable (Table Picker)
open WriteLock (File)

/-! ## What a transaction inserts -/

/-- The events table with the rows of some events. -/
def insertEvents (picker : Picker) (id : Int) : List Event → Table EventRow → Option (Table EventRow)
  | [], table => some table
  | event :: rest, table =>
    match table.insert picker (eventRow id event) with
    | none => none
    | some inserted => insertEvents picker id rest inserted.2

/-- The tables with an observation and its events, and the id of the observation; `none`
when a table is missing or has no rowid left. -/
def inserted (picker : Picker) (tables : Tables) (identity : PackageIdentity)
    (events : List Event) : Option (Int × Tables) :=
  match tables.observations, tables.events with
  | some observations, some rows =>
    match observations.insert picker (observationRow observations identity) with
    | none => none
    | some (id, observations) =>
      (insertEvents picker id events rows).map fun rows =>
        (id, { tables with observations := some observations, events := some rows })
  | _, _ => none

/-! ## Runs of calls -/

/-- A call within a transaction. -/
def Call.inner : Call → Bool
  | .beginImmediate | .commit => false
  | _ => true

/-- What calls within a transaction do together. -/
def performAll (sqlite : Sqlite) : List Call → Tables × Local → Option (Tables × Local)
  | [], state => some state
  | call :: rest, state =>
    match perform sqlite call state with
    | none => none
    | some next => performAll sqlite rest next

section Runs

variable {κ : Type} [DecidableEq κ] {sqlite : Sqlite} {c : κ} {call : Call}
  {calls calls' : List Call} {failing : Option Nat} {file : File κ Tables}
  {state : File κ Tables × Local} {tables copy : Tables} {kept : Local}

theorem performAll_append (state : Tables × Local) :
    performAll sqlite (calls ++ calls') state =
      (performAll sqlite calls state).bind (performAll sqlite calls') := by
  induction calls generalizing state with
  | nil => rfl
  | cons call calls ih =>
    rw [List.cons_append, performAll, performAll]
    cases perform sqlite call state with
    | none => rfl
    | some next => exact ih next

/-- A call that does not write leaves the tables alone. -/
theorem perform_of_not_writes (h : call.writes = false) {state : Tables × Local}
    (hperform : perform sqlite call (tables, kept) = some state) : state.1 = tables := by
  cases call with
  | prepare query =>
    obtain ⟨_, hstate⟩ := Option.ite_none_right_eq_some.mp hperform
    rw [← Option.some.inj hstate]
  | selectVersion =>
    obtain ⟨_, _, hstate⟩ := Option.map_eq_some_iff.mp hperform
    rw [← hstate]
  | selectBaseline =>
    unfold perform at hperform
    dsimp only at hperform
    split at hperform
    · cases hperform
    · rw [← Option.some.inj hperform]
  | createMigrations | createObservations | createEvents | createIndex | insertMigration =>
    cases h
  | insertObservation | insertEvent => cases h
  | pragma | beginImmediate | commit | bindText | bindInteger | reset | clearBindings =>
    rw [← Option.some.inj hperform]

theorem execute_inner (h : call.inner = true) : execute sqlite c call (file, kept) =
    match perform sqlite call (file.seen c, kept) with
    | none => none
    | some (tables, kept) =>
      if call.writes then (file.write c tables).map fun file => (file, kept)
      else some (file, kept) := by
  cases call with
  | beginImmediate | commit => cases h
  | _ => rfl

/-- In its transaction a connection works on its copy. -/
theorem execute_inside (h : call.inner = true) (hwriter : file.writer = some (c, copy)) :
    execute sqlite c call (file, kept) = (perform sqlite call (copy, kept)).map fun next =>
      ({ file with writer := some (c, next.1) }, next.2) := by
  rw [execute_inner h, File.seen_of_writer hwriter]
  cases hperform : perform sqlite call (copy, kept) with
  | none => rfl
  | some next =>
    dsimp only
    split
    · have hwrite : file.write c next.1 = some { file with writer := some (c, next.1) } :=
        File.write_eq_some_iff.mpr ⟨copy, hwriter, rfl⟩
      rw [hwrite, Option.map_some, Option.map_some]
    · rename_i hreads
      have hsame := perform_of_not_writes (Bool.eq_false_iff.mpr hreads) hperform
      rw [Option.map_some, hsame, ← hwriter]

/-- Outside it a connection reads what is committed. -/
theorem execute_outside (h : call.inner = true) (hreads : call.writes = false)
    (hnone : file.working c = none) :
    execute sqlite c call (file, kept) =
      (perform sqlite call (file.committed, kept)).map fun next => (file, next.2) := by
  rw [execute_inner h, File.seen_of_not_writer hnone]
  cases perform sqlite call (file.committed, kept) with
  | none => rfl
  | some next =>
    dsimp only
    rw [if_neg (by rw [hreads]; decide), Option.map_some]

theorem runCalls_append (failing : Option Nat) (state : File κ Tables × Local) :
    runCalls sqlite c (calls ++ calls') failing state =
      match runCalls sqlite c calls failing state with
      | .error thrown => .error thrown
      | .ok (failing, state) => runCalls sqlite c calls' failing state := by
  induction calls generalizing failing state with
  | nil => rfl
  | cons call calls ih =>
    rw [List.cons_append, runCalls, runCalls]
    split
    · rfl
    cases execute sqlite c call state with
    | none => rfl
    | some next => exact ih _ next

/-- The call at which a run is made to fail is one of the first `count`. -/
def FailsWithin (failing : Option Nat) (count : Nat) : Prop := ∃ k ∈ failing, k < count

theorem not_failsWithin_zero : ¬FailsWithin failing 0 := by
  rintro ⟨k, _, hk⟩
  omega

theorem FailsWithin.mono {count count' : Nat} (h : FailsWithin failing count)
    (hle : count ≤ count') : FailsWithin failing count' := by
  obtain ⟨k, hfailing, hk⟩ := h
  exact ⟨k, hfailing, by omega⟩

theorem eq_zero_iff_failsWithin : failing = some 0 ↔ FailsWithin failing 1 := by
  constructor
  · intro h
    exact ⟨0, h, by omega⟩
  · rintro ⟨k, hfailing, hk⟩
    obtain rfl : k = 0 := by omega
    exact hfailing

/-- Behind `passed` calls that have succeeded the others count from zero. -/
theorem failsWithin_map {passed : Nat} (h : ¬FailsWithin failing passed) (count : Nat) :
    FailsWithin (failing.map (· - passed)) count ↔ FailsWithin failing (passed + count) := by
  cases failing with
  | none => simp [FailsWithin]
  | some k =>
    have hpassed : ¬k < passed := fun hk => h ⟨k, rfl, hk⟩
    simp only [FailsWithin, Option.map_some, Option.mem_some_iff, exists_eq_left']
    omega

theorem map_sub_succ (failing : Option Nat) (passed : Nat) :
    (failing.map (· - 1)).map (· - passed) = failing.map (· - (passed + 1)) := by
  cases failing with
  | none => rfl
  | some k =>
    simp only [Option.map_some, Option.some.injEq]
    omega

theorem failsWithin_succ (h : failing ≠ some 0) (count : Nat) :
    FailsWithin failing (count + 1) ↔ FailsWithin (failing.map (· - 1)) count := by
  cases failing with
  | none => simp [FailsWithin]
  | some k =>
    have hpos : k ≠ 0 := fun hzero => h (congrArg some hzero)
    simp only [FailsWithin, Option.map_some, Option.mem_some_iff, exists_eq_left']
    omega

/-- Calls within a transaction: either all of them succeed, or one fails and nothing is
committed. -/
theorem runCalls_inside (hinner : ∀ call ∈ calls, call.inner = true) (failing : Option Nat)
    (committed copy : Tables) (kept : Local) :
    (¬FailsWithin failing calls.length ∧ ∃ next, performAll sqlite calls (copy, kept) = some next ∧
      runCalls sqlite c calls failing (⟨committed, some (c, copy)⟩, kept) =
        .ok (failing.map (· - calls.length), ⟨committed, some (c, next.1)⟩, next.2)) ∨
    ((FailsWithin failing calls.length ∨ performAll sqlite calls (copy, kept) = none) ∧
      ∃ what copy', runCalls sqlite c calls failing (⟨committed, some (c, copy)⟩, kept) =
        .error (what, ⟨committed, some (c, copy')⟩)) := by
  induction calls generalizing failing copy kept with
  | nil =>
    refine .inl ⟨not_failsWithin_zero, _, rfl, ?_⟩
    rw [runCalls]
    simp
  | cons call calls ih =>
    rw [List.forall_mem_cons] at hinner
    rw [List.length_cons, runCalls, performAll]
    by_cases hnow : failing = some 0
    · rw [if_pos hnow]
      exact .inr ⟨.inl ⟨0, hnow, by omega⟩, _, _, rfl⟩
    · rw [if_neg hnow, execute_inside hinner.1 rfl, failsWithin_succ hnow]
      cases perform sqlite call (copy, kept) with
      | none => exact .inr ⟨.inr rfl, _, _, rfl⟩
      | some next =>
        have hrest := ih hinner.2 (failing.map (· - 1)) next.1 next.2
        rw [map_sub_succ] at hrest
        exact hrest

/-- Calls that only read, outside a transaction. -/
theorem runCalls_outside (hcalls : ∀ call ∈ calls, call.inner = true ∧ call.writes = false)
    (hnone : file.working c = none) (failing : Option Nat) {next : Tables × Local}
    (hperform : performAll sqlite calls (file.committed, kept) = some next) :
    (¬FailsWithin failing calls.length ∧ runCalls sqlite c calls failing (file, kept) =
        .ok (failing.map (· - calls.length), file, next.2)) ∨
    (FailsWithin failing calls.length ∧
      ∃ what, runCalls sqlite c calls failing (file, kept) = .error (what, file)) := by
  induction calls generalizing failing kept with
  | nil =>
    refine .inl ⟨not_failsWithin_zero, ?_⟩
    rw [runCalls, ← Option.some.inj hperform]
    simp
  | cons call calls ih =>
    rw [List.forall_mem_cons] at hcalls
    rw [performAll] at hperform
    rw [List.length_cons, runCalls]
    by_cases hnow : failing = some 0
    · rw [if_pos hnow]
      exact .inr ⟨⟨0, hnow, by omega⟩, _, rfl⟩
    · rw [if_neg hnow, execute_outside hcalls.1.1 hcalls.1.2 hnone, failsWithin_succ hnow]
      cases hfirst : perform sqlite call (file.committed, kept) with
      | none =>
        rw [hfirst] at hperform
        cases hperform
      | some first =>
        rw [hfirst] at hperform
        dsimp only at hperform
        have hsame := perform_of_not_writes hcalls.1.2 hfirst
        have hrest := @ih first.2 hcalls.2 (failing.map (· - 1)) (by rw [← hperform, ← hsame])
        rw [map_sub_succ] at hrest
        exact hrest

theorem runCalls_begin (failing : Option Nat) (file : File κ Tables) (kept : Local) :
    (¬FailsWithin failing 1 ∧ file.writer = none ∧
      runCalls sqlite c [.beginImmediate] failing (file, kept) =
        .ok (failing.map (· - 1), ⟨file.committed, some (c, file.committed)⟩, kept)) ∨
    ((FailsWithin failing 1 ∨ file.writer ≠ none) ∧
      ∃ what, runCalls sqlite c [.beginImmediate] failing (file, kept) = .error (what, file)) := by
  rw [runCalls]
  by_cases hnow : failing = some 0
  · rw [if_pos hnow]
    exact .inr ⟨.inl ⟨0, hnow, by omega⟩, _, rfl⟩
  · have hlater : ¬FailsWithin failing 1 := by
      rw [failsWithin_succ hnow]
      exact not_failsWithin_zero
    have hexecute : execute sqlite c .beginImmediate (file, kept) =
        (file.acquire c).map fun file => (file, kept) := rfl
    rw [if_neg hnow, hexecute]
    cases hwriter : file.writer with
    | none =>
      rw [File.acquire_eq_some_iff.mpr ⟨hwriter, rfl⟩]
      exact .inl ⟨hlater, rfl, rfl⟩
    | some owner =>
      have hbusy : file.acquire c = none := by
        rw [File.acquire, hwriter]
      rw [hbusy]
      exact .inr ⟨.inr nofun, _, rfl⟩

theorem runCalls_commit (failing : Option Nat) (committed copy : Tables) (kept : Local) :
    runCalls sqlite c (.commit :: calls) failing (⟨committed, some (c, copy)⟩, kept) =
      if failing = some 0 then .error (sqlite.thrown .commit, ⟨committed, some (c, copy)⟩)
      else runCalls sqlite c calls (failing.map (· - 1)) (⟨copy, none⟩, kept) := by
  have hcommit : (⟨committed, some (c, copy)⟩ : File κ Tables).commit c = some ⟨copy, none⟩ :=
    File.commit_eq_some_iff.mpr ⟨copy, rfl, rfl⟩
  have hexecute : execute sqlite c .commit (⟨committed, some (c, copy)⟩, kept) =
      some (⟨copy, none⟩, kept) := by
    show ((⟨committed, some (c, copy)⟩ : File κ Tables).commit c).map _ = _
    rw [hcommit]
    rfl
  rw [runCalls, hexecute]

end Runs

/-! ## `store` -/

/-- The calls of `store` within its transaction. -/
def insertCalls (identity : PackageIdentity) (events : List Event) : List Call :=
  .prepare .observation :: List.replicate 11 .bindText ++ .insertObservation identity ::
    .prepare .event :: events.flatMap eventCalls

section Store

variable {κ : Type} [DecidableEq κ] {sqlite : Sqlite} {c : κ} {tables : Tables}
  {identity : PackageIdentity} {events : List Event} {failing : Option Nat} {file : File κ Tables}

theorem storeCalls_eq (identity : PackageIdentity) (events : List Event) :
    storeCalls identity events = insertCalls identity events ++ .commit :: baselineCalls := by
  rw [storeCalls, insertCalls, List.append_assoc]

theorem length_insertCalls (identity : PackageIdentity) (events : List Event) :
    (insertCalls identity events).length = 9 * events.length + 14 := by
  have hevents : (events.flatMap eventCalls).length = 9 * events.length := by
    induction events with
    | nil => rfl
    | cons event events ih =>
      rw [List.flatMap_cons, List.length_append, ih, List.length_cons]
      have hone : (eventCalls event).length = 9 := rfl
      omega
  rw [insertCalls, List.length_append, List.length_cons, List.length_cons, List.length_cons,
    List.length_replicate, hevents]
  omega

theorem inner_insertCalls : ∀ call ∈ insertCalls identity events, call.inner = true := by
  intro call hcall
  rw [insertCalls, List.mem_append, List.mem_cons, List.mem_cons, List.mem_cons,
    List.mem_flatMap] at hcall
  rcases hcall with (rfl | hbind) | rfl | rfl | ⟨event, _, hevent⟩
  · rfl
  · rw [List.eq_of_mem_replicate hbind]
    rfl
  · rfl
  · rfl
  · have hall : ∀ call ∈ eventCalls event, call.inner = true := by
      simp [eventCalls, Call.inner]
    exact hall call hevent

theorem performAll_events (kept : Local) (events : List Event) (tables : Tables)
    (rows : Table EventRow) (hrows : tables.events = some rows) :
    performAll sqlite (events.flatMap eventCalls) (tables, kept) =
      (insertEvents sqlite.picker kept.id events rows).map fun rows =>
        ({ tables with events := some rows }, kept) := by
  induction events generalizing tables rows with
  | nil =>
    rw [insertEvents, Option.map_some, ← hrows]
    rfl
  | cons event events ih =>
    have hone : performAll sqlite (eventCalls event) (tables, kept) =
        (rows.insert sqlite.picker (eventRow kept.id event)).map fun inserted =>
          ({ tables with events := some inserted.2 }, kept) := by
      simp only [eventCalls, performAll, perform, hrows]
      cases rows.insert sqlite.picker (eventRow kept.id event) <;> rfl
    rw [List.flatMap_cons, performAll_append, hone, insertEvents]
    cases rows.insert sqlite.picker (eventRow kept.id event) with
    | none => rfl
    | some inserted => exact ih _ _ rfl

theorem performAll_insertCalls (tables : Tables) (identity : PackageIdentity)
    (events : List Event) :
    performAll sqlite (insertCalls identity events) (tables, {}) =
      (inserted sqlite.picker tables identity events).map fun x => (x.2, { id := x.1 }) := by
  have hbinds : ∀ (count : Nat) (state : Tables × Local),
      performAll sqlite (List.replicate count .bindText) state = some state := by
    intro count state
    induction count with
    | zero => rfl
    | succ count ih => exact ih
  have hfirst : performAll sqlite (.prepare .observation :: List.replicate 11 .bindText)
      (tables, {}) = if tables.observations.isSome then some (tables, {}) else none := by
    rw [performAll, perform, Query.prepares]
    cases tables.observations.isSome with
    | true => exact hbinds 11 _
    | false => rfl
  rw [insertCalls, performAll_append, hfirst, inserted]
  cases hobservations : tables.observations with
  | none => rfl
  | some observations =>
    rw [Option.isSome_some, if_pos rfl, Option.bind_some, performAll, perform, hobservations]
    dsimp only
    cases hinsert : observations.insert sqlite.picker (observationRow observations identity) with
    | none =>
      cases tables.events with
      | none => rfl
      | some rows =>
        dsimp only
        rw [hinsert]
        rfl
    | some first =>
      obtain ⟨id, observations'⟩ := first
      rw [Option.map_some]
      dsimp only
      rw [performAll, perform, Query.prepares]
      dsimp only
      cases hevents : tables.events with
      | none => rfl
      | some rows =>
        have hrest := @performAll_events sqlite { id := id } events
          { tables with observations := some observations', events := some rows } rows rfl
        rw [Option.isSome_some, if_pos rfl]
        dsimp only at hrest ⊢
        rw [hrest, hinsert, Option.map_map]
        rfl

theorem inserted_eq_some_iff {picker : Picker} {id : Int} {after : Tables} :
    inserted picker tables identity events = some (id, after) ↔
      ∃ observations observations' rows rows', tables.observations = some observations ∧
        tables.events = some rows ∧
        observations.insert picker (observationRow observations identity) =
          some (id, observations') ∧
        insertEvents picker id events rows = some rows' ∧
        after = { tables with observations := some observations', events := some rows' } := by
  rw [inserted]
  cases tables.observations with
  | none => simp
  | some observations =>
    cases tables.events with
    | none => simp
    | some rows =>
      dsimp only
      cases hinsert : observations.insert picker (observationRow observations identity) with
      | none =>
        refine iff_of_false nofun ?_
        rintro ⟨_, _, _, _, hobservations, _, hother, _⟩
        rw [← Option.some.inj hobservations, hinsert] at hother
        cases hother
      | some first =>
        obtain ⟨id', observations'⟩ := first
        dsimp only
        rw [Option.map_eq_some_iff]
        constructor
        · rintro ⟨rows', hrows, heq⟩
          obtain ⟨rfl, rfl⟩ := Prod.mk.inj heq
          exact ⟨_, _, _, _, rfl, rfl, hinsert, hrows, rfl⟩
        · rintro ⟨_, _, _, rows', hobservations, hevents, hother, hrows, rfl⟩
          obtain rfl := Option.some.inj hobservations
          obtain rfl := Option.some.inj hevents
          rw [hinsert] at hother
          obtain ⟨rfl, rfl⟩ := Prod.mk.inj (Option.some.inj hother)
          exact ⟨rows', hrows, rfl⟩

theorem mem_of_insert {ρ : Type} {table table' : Table ρ} {picker : Picker} {row : ρ} {id : Int}
    (h : table.insert picker row = some (id, table')) {a : Int × ρ} :
    a ∈ table'.rows ↔ a = (id, row) ∨ a ∈ table.rows := by
  obtain ⟨next, hnext, heq⟩ := Option.map_eq_some_iff.mp h
  obtain ⟨rfl, rfl⟩ := Prod.mk.inj heq
  exact Table.mem_insertAt (Table.nextId_fresh hnext)

/-- The flag is read back as it was inserted. -/
theorem performAll_baselineCalls {observations observations' : Table ObservationRow} {id : Int}
    {picker : Picker} {after : Tables} (hafter : after.observations = some observations')
    (hinsert : observations.insert picker (observationRow observations identity) =
      some (id, observations')) :
    performAll sqlite baselineCalls (after, { id := id }) =
      some (after, { id := id, baseline := isBaseline observations identity.name }) := by
  have hfind : observations'.find id = some (observationRow observations identity) :=
    Table.find_eq_some_iff.mpr ((mem_of_insert hinsert).mpr (.inl rfl))
  have hflag : decide ((observationRow observations identity).baseline ≠ 0) =
      isBaseline observations identity.name := by
    rw [observationRow]
    dsimp only
    cases isBaseline observations identity.name <;> rfl
  simp only [baselineCalls, performAll, perform, Query.prepares, hafter, Option.isSome_some,
    if_true, hfind, hflag]

/-- The `try` block of `store`: it fails up to `COMMIT`, or it commits, and behind that it
may still fail. -/
theorem runCalls_storeCalls (failing : Option Nat) (committed : Tables)
    (identity : PackageIdentity) (events : List Event) :
    ((FailsWithin failing (9 * events.length + 15) ∨
        inserted sqlite.picker committed identity events = none) ∧
      ∃ what copy, runCalls sqlite c (storeCalls identity events) failing
          (⟨committed, some (c, committed)⟩, {}) = .error (what, ⟨committed, some (c, copy)⟩)) ∨
    (¬FailsWithin failing (9 * events.length + 15) ∧
      ∃ id after observations, inserted sqlite.picker committed identity events =
          some (id, after) ∧ committed.observations = some observations ∧
        ((FailsWithin failing (9 * events.length + 18) ∧
            ∃ what, runCalls sqlite c (storeCalls identity events) failing
              (⟨committed, some (c, committed)⟩, {}) = .error (what, ⟨after, none⟩)) ∨
          (¬FailsWithin failing (9 * events.length + 18) ∧
            ∃ rest, runCalls sqlite c (storeCalls identity events) failing
              (⟨committed, some (c, committed)⟩, {}) = .ok (rest, ⟨after, none⟩,
                { id := id, baseline := isBaseline observations identity.name })))) := by
  have hlength := length_insertCalls identity events
  rw [storeCalls_eq, runCalls_append]
  rcases @runCalls_inside _ _ sqlite c _ (@inner_insertCalls identity events) failing committed
    committed {} with ⟨hinside, next, hperform, hrun⟩ | ⟨hreason, what, copy, herror⟩
  · rw [performAll_insertCalls] at hperform
    obtain ⟨⟨id, after⟩, hinserted, rfl⟩ := Option.map_eq_some_iff.mp hperform
    have hcommits : failing.map (· - (insertCalls identity events).length) = some 0 ↔
        FailsWithin failing (9 * events.length + 15) := by
      rw [eq_zero_iff_failsWithin, failsWithin_map hinside, hlength]
    rw [hrun]
    dsimp only
    rw [runCalls_commit]
    by_cases hcommit : failing.map (· - (insertCalls identity events).length) = some 0
    · rw [if_pos hcommit]
      exact .inl ⟨.inl (hcommits.mp hcommit), _, _, rfl⟩
    · obtain ⟨observations, observations', rows, rows', hobservations, _, hinsert, _, hafter⟩ :=
        inserted_eq_some_iff.mp hinserted
      have hread := @performAll_baselineCalls sqlite _ _ _ _ _ _
        (congrArg Tables.observations hafter) hinsert
      rw [if_neg hcommit]
      refine .inr ⟨hcommit ∘ hcommits.mpr, id, after, observations, hinserted, hobservations, ?_⟩
      have hreads : ∀ call ∈ baselineCalls, call.inner = true ∧ call.writes = false := by decide
      have hcount : ∀ count, FailsWithin ((failing.map (· - (insertCalls identity events).length)).map
          (· - 1)) count ↔ FailsWithin failing (9 * events.length + 14 + (1 + count)) := by
        intro count
        rw [failsWithin_map (hcommit ∘ eq_zero_iff_failsWithin.mpr), failsWithin_map hinside, hlength]
      have hthree : baselineCalls.length = 3 := rfl
      rcases @runCalls_outside _ _ sqlite c baselineCalls ⟨after, none⟩ _ hreads rfl
        ((failing.map (· - (insertCalls identity events).length)).map (· - 1)) _ hread with
        ⟨hnever, hok⟩ | ⟨hfails, what, herror⟩
      · rw [hcount, hthree] at hnever
        exact .inr ⟨fun h => hnever (h.mono (by omega)), _, hok⟩
      · rw [hcount, hthree] at hfails
        exact .inl ⟨hfails.mono (by omega), what, herror⟩
  · rw [herror]
    refine .inl ⟨?_, what, copy, rfl⟩
    rcases hreason with hfails | hnone
    · exact .inl (hfails.mono (by omega))
    · rw [performAll_insertCalls, Option.map_eq_none_iff] at hnone
      exact .inr hnone

/-- How a call of `store` goes: it fails up to `COMMIT` and leaves the file as it was, or it
commits, and behind that it may still fail. -/
theorem store_cases (sqlite : Sqlite) (c : κ) (failing : Option Nat) (identity : PackageIdentity)
    (events : List Event) (file : File κ Tables) :
    ((FailsWithin failing (9 * events.length + 16) ∨ file.writer ≠ none ∨
        inserted sqlite.picker file.committed identity events = none) ∧
      ∃ what, store sqlite c failing identity events file = (file, .error what)) ∨
    (¬FailsWithin failing (9 * events.length + 16) ∧ file.writer = none ∧
      ∃ id after observations, inserted sqlite.picker file.committed identity events =
          some (id, after) ∧ file.committed.observations = some observations ∧
        ((FailsWithin failing (9 * events.length + 19) ∧
            ∃ what, store sqlite c failing identity events file = (⟨after, none⟩, .error what)) ∨
          (¬FailsWithin failing (9 * events.length + 19) ∧
            store sqlite c failing identity events file =
              (⟨after, none⟩, .ok ⟨id, isBaseline observations identity.name⟩)))) := by
  rcases @runCalls_begin _ _ sqlite c failing file {} with
    ⟨hnow, hwriter, hbegin⟩ | ⟨hreason, what, herror⟩
  · have hcount : ∀ count, FailsWithin (failing.map (· - 1)) count ↔
        FailsWithin failing (1 + count) := failsWithin_map hnow
    rw [store, hbegin]
    dsimp only
    rcases @runCalls_storeCalls _ _ sqlite c (failing.map (· - 1)) file.committed identity
      events with ⟨hreason, what, copy, herror⟩ | ⟨hlate, id, after, observations, hinserted,
        hobservations, ⟨hfails, what, herror⟩ | ⟨hnever, rest, hok⟩⟩
    · have hrollback : (⟨file.committed, some (c, copy)⟩ : File κ Tables).rollback c = file := by
        rw [File.rollback_of_writer rfl, ← hwriter]
      rw [herror]
      dsimp only
      rw [hrollback]
      refine .inl ⟨?_, what, rfl⟩
      rcases hreason with hfails | hnone
      · rw [hcount] at hfails
        exact .inl (hfails.mono (by omega))
      · exact .inr (.inr hnone)
    · rw [hcount] at hlate hfails
      rw [herror]
      dsimp only
      rw [File.rollback_of_not_writer rfl]
      exact .inr ⟨fun h => hlate (h.mono (by omega)), hwriter, id, after, observations, hinserted,
        hobservations, .inl ⟨hfails.mono (by omega), what, rfl⟩⟩
    · rw [hcount] at hlate hnever
      rw [hok]
      exact .inr ⟨fun h => hlate (h.mono (by omega)), hwriter, id, after, observations, hinserted,
        hobservations, .inr ⟨fun h => hnever (h.mono (by omega)), rfl⟩⟩
  · refine .inl ⟨?_, what, by rw [store, herror]⟩
    rcases hreason with hfails | hbusy
    · exact .inl (hfails.mono (by omega))
    · exact .inr (.inl hbusy)

end Store

/-! ## `migrate` -/

section Migrate

variable {κ : Type} [DecidableEq κ] {sqlite : Sqlite} {c : κ} {failing : Option Nat}
  {file : File κ Tables}

theorem runCalls_pragma (failing : Option Nat) (file : File κ Tables) (kept : Local) :
    runCalls sqlite c [.pragma, .beginImmediate] failing (file, kept) =
      if failing = some 0 then .error (sqlite.thrown .pragma, file)
      else runCalls sqlite c [.beginImmediate] (failing.map (· - 1)) (file, kept) := by
  have hexecute : execute sqlite c .pragma (file, kept) = some (file, kept) := by
    rw [execute_inner rfl]
    rfl
  rw [runCalls, hexecute]

/-- The `try` block of `migrate` commits with its last call. -/
theorem migrateBody_cases (sqlite : Sqlite) (c : κ) (failing : Option Nat) (committed : Tables) :
    (∃ what copy, migrateBody sqlite c failing (⟨committed, some (c, committed)⟩, {}) =
        .error (what, ⟨committed, some (c, copy)⟩)) ∨
      ∃ rest after kept, migrateBody sqlite c failing (⟨committed, some (c, committed)⟩, {}) =
        .ok (rest, ⟨after, none⟩, kept) := by
  have hfirst : ∀ call ∈ [Call.createMigrations, .prepare .version, .selectVersion],
      call.inner = true := by decide
  rw [migrateBody]
  rcases @runCalls_inside _ _ sqlite c _ hfirst failing committed committed {} with
    ⟨_, ⟨copy, kept⟩, _, hrun⟩ | ⟨_, what, copy, herror⟩
  · rw [hrun]
    dsimp only
    split
    · exact .inl ⟨_, _, rfl⟩
    have hcreate : ∀ call ∈ if kept.version < 1 then createCalls else [], call.inner = true := by
      split
      · decide
      · nofun
    generalize (if kept.version < 1 then createCalls else []) = calls at hcreate
    rw [runCalls_append]
    rcases @runCalls_inside _ _ sqlite c _ hcreate (failing.map (· - 3)) committed copy kept with
      ⟨_, ⟨copy', kept'⟩, _, hrun⟩ | ⟨_, what, copy', herror⟩
    · have hlength : [Call.createMigrations, .prepare .version, .selectVersion].length = 3 := rfl
      rw [hlength, hrun]
      dsimp only
      rw [runCalls_commit]
      split
      · exact .inl ⟨_, _, rfl⟩
      · exact .inr ⟨_, _, _, rfl⟩
    · have hlength : [Call.createMigrations, .prepare .version, .selectVersion].length = 3 := rfl
      rw [hlength, herror]
      exact .inl ⟨_, _, rfl⟩
  · rw [herror]
    exact .inl ⟨_, _, rfl⟩

/-- The migration throws and leaves the file as it was, or it commits. -/
theorem migrate_cases (sqlite : Sqlite) (c : κ) (failing : Option Nat) (file : File κ Tables) :
    (∃ what, migrate sqlite c failing file = (file, .error what)) ∨
      ∃ after, migrate sqlite c failing file = (⟨after, none⟩, .ok ()) := by
  rw [migrate, runCalls_pragma]
  by_cases hnow : failing = some 0
  · rw [if_pos hnow]
    exact .inl ⟨_, rfl⟩
  rw [if_neg hnow]
  rcases @runCalls_begin _ _ sqlite c (failing.map (· - 1)) file {} with
    ⟨_, hwriter, hbegin⟩ | ⟨_, what, herror⟩
  · rw [hbegin]
    dsimp only
    rcases migrateBody_cases sqlite c ((failing.map (· - 1)).map (· - 1)) file.committed with
      ⟨what, copy, herror⟩ | ⟨rest, after, kept, hok⟩
    · have hrollback : (⟨file.committed, some (c, copy)⟩ : File κ Tables).rollback c = file := by
        rw [File.rollback_of_writer rfl, ← hwriter]
      rw [herror]
      dsimp only
      rw [hrollback]
      exact .inl ⟨what, rfl⟩
    · rw [hok]
      exact .inr ⟨after, rfl⟩
  · rw [herror]
    exact .inl ⟨what, rfl⟩

end Migrate

/-! ## Atomic operations -/

section Atomic

variable {κ : Type} [DecidableEq κ]

/-- `open` throws only when the tables are as before. -/
def OpenAtomic (sqlite : Sqlite) (c : κ) (opened : Except Text Unit) (failing : Option Nat)
    (file : File κ Tables) : Prop :=
  ∀ what, («open» sqlite c opened failing file).2 = .error what →
    («open» sqlite c opened failing file).1.committed = file.committed

/-- The observation is there with all its events, and nothing else has changed. -/
def Holds (before after : Tables) (identity : PackageIdentity) (events : List Event)
    (observation : Observation) : Prop :=
  ∃ observations observations' rows rows', before.observations = some observations ∧
    before.events = some rows ∧
    after = { before with observations := some observations', events := some rows' } ∧
    observations'.rows.Perm
      ((observation.id, observationRow observations identity) :: observations.rows) ∧
    (rows'.rows.map Prod.snd).Perm
      (rows.rows.map Prod.snd ++ events.map (eventRow observation.id))

/-- `store` throws only when the tables are as before, and returns when all is stored. -/
structure StoreAtomic (sqlite : Sqlite) (c : κ) (failing : Option Nat) (identity : PackageIdentity)
    (events : List Event) (file : File κ Tables) : Prop where
  thrown : ∀ what, (store sqlite c failing identity events file).2 = .error what →
    (store sqlite c failing identity events file).1.committed = file.committed
  returned : ∀ observation,
    (store sqlite c failing identity events file).2 = .ok observation →
      Holds file.committed (store sqlite c failing identity events file).1.committed identity
        events observation

/-- The call that fails is one of the three behind `COMMIT`. -/
def BehindCommit (events : List Event) (failing : Option Nat) : Prop :=
  ∃ k ∈ failing, 9 * events.length + 16 ≤ k ∧ k < 9 * events.length + 19

variable {sqlite : Sqlite} {c : κ} {failing : Option Nat} {identity : PackageIdentity}
  {events : List Event} {file : File κ Tables} {picker : Picker} {id : Int}

theorem perm_of_insert {ρ : Type} {table table' : Table ρ} {row : ρ}
    (h : table.insert picker row = some (id, table')) :
    table'.rows.Perm ((id, row) :: table.rows) := by
  obtain ⟨next, hnext, heq⟩ := Option.map_eq_some_iff.mp h
  obtain ⟨rfl, rfl⟩ := Prod.mk.inj heq
  exact Table.perm_insertAt (Table.nextId_fresh hnext)

theorem perm_of_insertEvents {rows rows' : Table EventRow}
    (h : insertEvents picker id events rows = some rows') :
    (rows'.rows.map Prod.snd).Perm (rows.rows.map Prod.snd ++ events.map (eventRow id)) := by
  induction events generalizing rows with
  | nil =>
    rw [insertEvents] at h
    rw [← Option.some.inj h, List.map_nil, List.append_nil]
  | cons event events ih =>
    rw [insertEvents] at h
    cases hinsert : rows.insert picker (eventRow id event) with
    | none =>
      rw [hinsert] at h
      cases h
    | some first =>
      rw [hinsert] at h
      have hperm := (@perm_of_insert picker _ _ _ _ _ hinsert).map Prod.snd
      rw [List.map_cons] at hperm
      refine (ih h).trans ((hperm.append_right _).trans ?_)
      rw [List.map_cons]
      exact List.perm_middle.symm

theorem holds_of_inserted {before after : Tables} {baseline : Bool}
    (h : inserted picker before identity events = some (id, after)) :
    Holds before after identity events ⟨id, baseline⟩ := by
  obtain ⟨observations, observations', rows, rows', hobservations, hrows, hinsert, hevents, hafter⟩ :=
    inserted_eq_some_iff.mp h
  exact ⟨observations, observations', rows, rows', hobservations, hrows, hafter,
    perm_of_insert hinsert, perm_of_insertEvents hevents⟩

theorem ne_of_inserted {before after : Tables}
    (h : inserted picker before identity events = some (id, after)) : after ≠ before := by
  obtain ⟨observations, observations', rows, rows', hobservations, _, hinsert, _, hafter⟩ :=
    inserted_eq_some_iff.mp h
  intro heq
  have hsame : some observations' = some observations := by
    rw [← hobservations, ← heq, hafter]
  have hlength := (perm_of_insert hinsert).length_eq
  rw [Option.some.inj hsame, List.length_cons] at hlength
  omega

theorem openAtomic (sqlite : Sqlite) (c : κ) (opened : Except Text Unit) (failing : Option Nat)
    (file : File κ Tables) : OpenAtomic sqlite c opened failing file := by
  intro what hthrown
  cases opened with
  | error message => rfl
  | ok =>
    rw [«open»] at hthrown ⊢
    rcases migrate_cases sqlite c failing file with ⟨_, herror⟩ | ⟨_, hok⟩
    · rw [herror]
    · rw [hok] at hthrown
      cases hthrown

/-- Storing is atomic unless one of the calls behind `COMMIT` fails, which a run comes to when
nobody else writes and the tables have room for the rows. -/
theorem storage_atomic_iff (sqlite : Sqlite) (c : κ) (opened : Except Text Unit)
    (failing : Option Nat) (identity : PackageIdentity) (events : List Event)
    (file : File κ Tables) :
    OpenAtomic sqlite c opened failing file ∧
      (StoreAtomic sqlite c failing identity events file ↔
        ¬(BehindCommit events failing ∧ file.writer = none ∧
          inserted sqlite.picker file.committed identity events ≠ none)) := by
  refine ⟨openAtomic sqlite c opened failing file, ?_⟩
  rcases store_cases sqlite c failing identity events file with
    ⟨hreason, what, hstore⟩ | ⟨hlate, hwriter, id, after, observations, hinserted, _,
      ⟨hfails, what, hstore⟩ | ⟨hnever, hstore⟩⟩
  · refine iff_of_true ⟨fun _ _ => by rw [hstore], ?_⟩ ?_
    · intro observation hok
      rw [hstore] at hok
      cases hok
    · rintro ⟨⟨k, hk, hle, _⟩, hidle, hroom⟩
      rcases hreason with ⟨k', hk', hlt⟩ | hbusy | hnone
      · obtain rfl := Option.some.inj (hk.symm.trans hk')
        omega
      · exact hbusy hidle
      · exact hroom hnone
  · refine iff_of_false ?_ ?_
    · intro h
      have hsame := h.thrown what (by rw [hstore])
      rw [hstore] at hsame
      exact ne_of_inserted hinserted hsame
    · obtain ⟨k, hk, hlt⟩ := hfails
      rw [not_not, hinserted]
      refine ⟨⟨k, hk, ?_, hlt⟩, hwriter, nofun⟩
      by_contra hless
      exact hlate ⟨k, hk, by omega⟩
  · refine iff_of_true ⟨?_, ?_⟩ ?_
    · intro what hthrown
      rw [hstore] at hthrown
      cases hthrown
    · intro observation hok
      rw [hstore] at hok ⊢
      rw [← Except.ok.inj hok]
      exact holds_of_inserted hinserted
    · rintro ⟨⟨k, hk, _, hlt⟩, _⟩
      exact hnever ⟨k, hk, hlt⟩

end Atomic

/-- The tables of a new database. -/
def migrated : Tables where
  migrations := some [1]
  observations := some ∅
  events := some ∅
  eventsIndex := true

/-- SQLite that never finds another rowid, with messages of its own. -/
def plainSqlite : Sqlite where
  picker := { pick := fun _ => none, fresh := nofun }
  errmsg := fun _ => "disk I/O error".toList

/-- An empty file is migrated. -/
example : migrate plainSqlite () none { committed := {} } = (⟨migrated, none⟩, .ok ()) := rfl

/-- The read behind `COMMIT` fails: `store` throws, and the observation is there. -/
theorem not_storeAtomic_read :
    ¬StoreAtomic plainSqlite () (some 18) { name := "fixture".toList, version := "1".toList } []
      { committed := migrated } := by
  intro h
  have hsame := h.thrown "step: disk I/O error".toList rfl
  exact absurd hsame (by decide +kernel)

end ExeCell.Package.Storage
