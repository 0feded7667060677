import ExeCell.Package.StorageHistory
import ExeCell.Package.StorageWriters

/-!
# Connections that store are serializable

Several connections store in any interleaving, every call of which can fail (`World.step`).
What is committed is always what one connection would have left that had stored one
observation after the other, in the order of the commits (`stores_serializable`).

The log of that serial history is no part of the state. It is only added to, by `COMMIT`; the
stores of one connection are in it in the order of its calls, and everything that was returned
is in it. So what holds of a `History` holds of every file, whoever has written to it.
-/

namespace ExeCell.Package.Storage

open WriteLock (File)

variable {κ : Type} [DecidableEq κ]

/-! ## The log -/

/-- The calls of `store` that a connection makes. -/
def callsOf (c : κ) (moves : List (Move κ)) : List (PackageIdentity × List Event) :=
  moves.filterMap fun
    | .call other identity events => if other = c then some (identity, events) else none
    | _ => none

/-- What a connection has committed. -/
def commitsOf (c : κ) (log : List (κ × Stored)) : List (PackageIdentity × List Event) :=
  (log.filter fun entry => entry.1 = c).map fun entry => (entry.2.identity, entry.2.events)

/-- How far a `store` has come, beside the log. -/
inductive Place (sqlite : Sqlite) (file : File κ Tables) (log : List (κ × Stored)) (c : κ)
    (calls : List (PackageIdentity × List Event)) : Session → Prop where
  | waiting {identity : PackageIdentity} {events : List Event}
      (hcalled : (commitsOf c log ++ [(identity, events)]).Sublist calls) :
      Place sqlite file log c calls ⟨identity, .beginImmediate :: storeCalls identity events, {}⟩
  /-- The copy is what the calls so far have made of what is committed. -/
  | inside {identity : PackageIdentity} {events : List Event} {done rest : List Call}
      {copy : Tables} {kept : Local}
      (hcalls : insertCalls identity events = done ++ rest)
      (hwriter : file.writer = some (c, copy))
      (hdone : performAll sqlite done (file.committed, {}) = some (copy, kept))
      (hcalled : (commitsOf c log ++ [(identity, events)]).Sublist calls) :
      Place sqlite file log c calls ⟨identity, rest ++ .commit :: baselineCalls, kept⟩
  | behind {identity : PackageIdentity} {rest : List Call} {kept : Local}
      (hrest : ∀ call ∈ rest, call.between = true ∧ call.writes = false)
      (hlogged : ∃ stored, (c, stored) ∈ log ∧ stored.id = kept.id ∧ stored.identity = identity) :
      Place sqlite file log c calls ⟨identity, rest, kept⟩

/-- What is committed is the serial history of the log. -/
structure Serial (sqlite : Sqlite) (w : World κ) (moves : List (Move κ))
    (log : List (κ × Stored)) : Prop where
  history : History sqlite w.file.committed (log.map Prod.snd)
  ordered : ∀ c, (commitsOf c log).Sublist (callsOf c moves)
  places : ∀ c session, w.sessions c = some session →
    Place sqlite w.file log c (callsOf c moves) session
  returned : ∀ call ∈ w.returned, ∃ entry ∈ log,
    entry.2.id = call.2.id ∧ entry.2.identity = call.1

section Log

variable {sqlite : Sqlite} {c other : κ} {moves : List (Move κ)} {log : List (κ × Stored)}
  {file file' : File κ Tables} {calls : List (PackageIdentity × List Event)} {session : Session}

theorem callsOf_append (c : κ) (moves moves' : List (Move κ)) :
    callsOf c (moves ++ moves') = callsOf c moves ++ callsOf c moves' := List.filterMap_append ..

theorem callsOf_call (c other : κ) (identity : PackageIdentity) (events : List Event) :
    callsOf c [.call other identity events] = if other = c then [(identity, events)] else [] := by
  by_cases hown : other = c
  · simp [callsOf, hown]
  · simp [callsOf, hown]

theorem commitsOf_append (c : κ) (log : List (κ × Stored)) (entry : κ × Stored) :
    commitsOf c (log ++ [entry]) =
      commitsOf c log ++ if entry.1 = c then [(entry.2.identity, entry.2.events)] else [] := by
  rw [commitsOf, List.filter_append, List.map_append]
  by_cases hown : entry.1 = c
  · simp [commitsOf, hown]
  · simp [commitsOf, hown]

/-- More calls do not matter to a `store` that is under way. -/
theorem Place.later (h : Place sqlite file log c calls session)
    (more : List (PackageIdentity × List Event)) :
    Place sqlite file log c (calls ++ more) session := by
  cases h with
  | waiting hcalled => exact .waiting (hcalled.trans (List.sublist_append_left ..))
  | inside hcalls hwriter hdone hcalled =>
    exact .inside hcalls hwriter hdone (hcalled.trans (List.sublist_append_left ..))
  | behind hrest hlogged => exact .behind hrest hlogged

/-- The others do not matter: while a connection is the writer they leave the file alone. -/
theorem Place.frame (h : Place sqlite file log c calls session) {more : List (κ × Stored)}
    (hmore : ∀ entry ∈ more, entry.1 ≠ c)
    (hfile : ∀ copy, file.writer = some (c, copy) → file' = file) :
    Place sqlite file' (log ++ more) c calls session := by
  have hcommits : commitsOf c (log ++ more) = commitsOf c log := by
    have hnone : more.filter (fun entry => entry.1 = c) = [] := by
      rw [List.filter_eq_nil_iff]
      intro entry hentry
      rw [decide_eq_true_eq]
      exact hmore entry hentry
    rw [commitsOf, List.filter_append, hnone, List.append_nil, commitsOf]
  cases h with
  | waiting hcalled =>
    apply Place.waiting
    rw [hcommits]
    exact hcalled
  | inside hcalls hwriter hdone hcalled =>
    obtain rfl := hfile _ hwriter
    apply Place.inside hcalls hwriter hdone
    rw [hcommits]
    exact hcalled
  | behind hrest hlogged =>
    obtain ⟨stored, hstored, hsame⟩ := hlogged
    exact .behind hrest ⟨stored, List.mem_append_left _ hstored, hsame⟩

end Log

/-! ## One call of a connection -/

section Execute

variable {sqlite : Sqlite} {c other : κ} {call : Call} {file file' : File κ Tables}
  {kept kept' : Local} {copy : Tables} {identity : PackageIdentity} {events : List Event}
  {id : Int} {tables after : Tables}

theorem working_of_other (hne : c ≠ other) (hwriter : file.writer = some (other, copy)) :
    file.working c = none := by
  rw [File.working_eq_none_iff, hwriter]
  intro held heq
  exact hne (Prod.mk.inj (Option.some.inj heq)).1.symm

/-- While another connection is the writer, a call that succeeds leaves the file alone. -/
theorem execute_of_other (hne : c ≠ other) (hwriter : file.writer = some (other, copy))
    (h : execute sqlite c call (file, kept) = some (file', kept')) : file' = file := by
  have hworking := working_of_other hne hwriter
  have hinner : call.inner = true → file' = file := by
    intro hinner
    rw [execute_inner hinner] at h
    split at h
    · cases h
    split at h
    · obtain ⟨written, hwrite, _⟩ := Option.map_eq_some_iff.mp h
      obtain ⟨held, howner, _⟩ := File.write_eq_some_iff.mp hwrite
      exact absurd howner (File.working_eq_none_iff.mp hworking held)
    · exact ((Prod.mk.inj (Option.some.inj h)).1).symm
  cases call with
  | beginImmediate =>
    obtain ⟨acquired, hacquire, _⟩ := Option.map_eq_some_iff.mp h
    rw [(File.acquire_eq_some_iff.mp hacquire).1] at hwriter
    cases hwriter
  | commit =>
    obtain ⟨committed, hcommit, _⟩ := Option.map_eq_some_iff.mp h
    obtain ⟨held, howner, _⟩ := File.commit_eq_some_iff.mp hcommit
    exact absurd howner (File.working_eq_none_iff.mp hworking held)
  | _ => exact hinner rfl

/-- What can be inserted is what a `store` by itself leaves. -/
theorem store_of_inserted (h : inserted sqlite.picker tables identity events = some (id, after)) :
    (store sqlite () none identity events ⟨tables, none⟩).1 = ⟨after, none⟩ := by
  rcases store_cases sqlite () none identity events ⟨tables, none⟩ with
    ⟨⟨_, hnone, _⟩ | hbusy | hrefused, _⟩ |
      ⟨_, _, id', after', _, hinserted, _, ⟨_, what, hstore⟩ | ⟨_, hstore⟩⟩
  · cases hnone
  · exact absurd rfl hbusy
  · rw [h] at hrefused
    cases hrefused
  · rw [h] at hinserted
    obtain ⟨rfl, rfl⟩ := Prod.mk.inj (Option.some.inj hinserted)
    rw [hstore]
  · rw [h] at hinserted
    obtain ⟨rfl, rfl⟩ := Prod.mk.inj (Option.some.inj hinserted)
    rw [hstore]

theorem between_baselineCalls :
    ∀ call ∈ baselineCalls, call.between = true ∧ call.writes = false := by decide

/-- What a call that succeeds does with its `store`: it goes on beside the same log and
history, or it commits, and the log gets the observation. -/
theorem Place.next {log : List (κ × Stored)} {calls : List (PackageIdentity × List Event)}
    {rest : List Call} (h : Place sqlite file log c calls ⟨identity, call :: rest, kept⟩)
    (hordered : (commitsOf c log).Sublist calls)
    (hhistory : History sqlite file.committed (log.map Prod.snd))
    (hexecute : execute sqlite c call (file, kept) = some (file', kept')) :
    ∃ more, (∀ entry ∈ more, entry.1 = c) ∧
      History sqlite file'.committed ((log ++ more).map Prod.snd) ∧
      (commitsOf c (log ++ more)).Sublist calls ∧
      Place sqlite file' (log ++ more) c calls ⟨identity, rest, kept'⟩ := by
  generalize hsession : (⟨identity, call :: rest, kept⟩ : Session) = session at h
  cases h with
  | @waiting _ events hcalled =>
    cases hsession
    obtain ⟨acquired, hacquire, heq⟩ := Option.map_eq_some_iff.mp hexecute
    obtain ⟨rfl, rfl⟩ := Prod.mk.inj heq
    obtain ⟨_, rfl⟩ := File.acquire_eq_some_iff.mp hacquire
    refine ⟨[], List.forall_mem_nil _, ?_, ?_, ?_⟩
    · rw [List.append_nil]
      exact hhistory
    · rw [List.append_nil]
      exact hordered
    · rw [List.append_nil, storeCalls_eq]
      exact .inside (List.nil_append _).symm rfl rfl hcalled
  | @inside _ events done left copy _ hcalls hwriter hdone hcalled =>
    cases left with
    | nil =>
      -- the transaction is complete, and is the next `store` of the serial history
      cases hsession
      obtain ⟨committed, hcommit, heq⟩ := Option.map_eq_some_iff.mp hexecute
      obtain ⟨rfl, rfl⟩ := Prod.mk.inj heq
      obtain ⟨copy', howner, rfl⟩ := File.commit_eq_some_iff.mp hcommit
      rw [hwriter] at howner
      obtain ⟨_, rfl⟩ := Prod.mk.inj (Option.some.inj howner)
      rw [List.append_nil] at hcalls
      rw [← hcalls, performAll_insertCalls] at hdone
      obtain ⟨⟨id, after⟩, hinserted, heq⟩ := Option.map_eq_some_iff.mp hdone
      cases heq
      refine ⟨[(c, ⟨id, identity, events⟩)], ?_, ?_, ?_, ?_⟩
      · intro entry hentry
        rw [List.mem_singleton.mp hentry]
      · rw [List.map_append]
        exact .store hhistory (store_of_inserted hinserted) hinserted
      · rw [commitsOf_append, if_pos rfl]
        exact hcalled
      · exact .behind between_baselineCalls
          ⟨_, List.mem_append_right _ List.mem_cons_self, rfl, rfl⟩
    | cons first left =>
      cases hsession
      have hinner : call.inner = true := by
        have hmem : call ∈ insertCalls identity events := by
          rw [hcalls]
          exact List.mem_append_right _ List.mem_cons_self
        exact inner_insertCalls call hmem
      rw [execute_inside hinner hwriter] at hexecute
      obtain ⟨⟨copy', kept''⟩, hperform, heq⟩ := Option.map_eq_some_iff.mp hexecute
      obtain ⟨rfl, rfl⟩ := Prod.mk.inj heq
      refine ⟨[], List.forall_mem_nil _, ?_, ?_, ?_⟩
      · rw [List.append_nil]
        exact hhistory
      · rw [List.append_nil]
        exact hordered
      · rw [List.append_nil]
        have hsplit : insertCalls identity events = (done ++ [call]) ++ left := by
          rw [hcalls, List.append_assoc]
          rfl
        refine .inside hsplit rfl ?_ hcalled
        rw [performAll_append, hdone, Option.bind_some, performAll, hperform]
        rfl
  | behind hrest hlogged =>
    cases hsession
    rw [List.forall_mem_cons] at hrest
    obtain ⟨⟨hbetween, hreads⟩, hrest⟩ := hrest
    obtain ⟨rfl, tables, hperform⟩ := execute_reader (inner_of_between hbetween) hreads hexecute
    refine ⟨[], List.forall_mem_nil _, ?_, ?_, ?_⟩
    · rw [List.append_nil]
      exact hhistory
    · rw [List.append_nil]
      exact hordered
    · rw [List.append_nil]
      refine .behind hrest ?_
      rw [id_of_between hbetween hperform]
      exact hlogged

end Execute

/-! ## Runs -/

section Runs

variable {sqlite : Sqlite} {w w' : World κ} {moves : List (Move κ)} {log : List (κ × Stored)}
  {c : κ} {file : File κ Tables} {move : Move κ}

theorem serial_start : Serial sqlite (World.start : World κ) [] [] where
  history := .start
  ordered _ := List.Sublist.slnil
  places := nofun
  returned := nofun

/-- A connection has gone on and may have added to the log; the others are where they were. -/
theorem Serial.put (h : Serial sqlite w moves log) {more : List (κ × Stored)}
    {session : Option Session} (hmore : ∀ entry ∈ more, entry.1 = c)
    (hhistory : History sqlite file.committed ((log ++ more).map Prod.snd))
    (hordered : (commitsOf c (log ++ more)).Sublist (callsOf c (moves ++ [move])))
    (hplace : ∀ s, session = some s →
      Place sqlite file (log ++ more) c (callsOf c (moves ++ [move])) s)
    (hfile : ∀ other copy, c ≠ other → w.file.writer = some (other, copy) → file = w.file) :
    Serial sqlite (w.put c file session) (moves ++ [move]) (log ++ more) where
  history := hhistory
  ordered := by
    intro other
    by_cases hown : other = c
    · rw [hown]
      exact hordered
    · have hnone : more.filter (fun entry => entry.1 = other) = [] := by
        rw [List.filter_eq_nil_iff]
        intro entry hentry
        rw [decide_eq_true_eq, hmore entry hentry]
        exact fun heq => hown heq.symm
      rw [commitsOf, List.filter_append, hnone, List.append_nil, callsOf_append]
      exact (h.ordered other).trans (List.sublist_append_left ..)
  places := by
    intro other s hsession
    change Function.update w.sessions c session other = some s at hsession
    by_cases hown : other = c
    · rw [hown, Function.update_self] at hsession
      rw [hown]
      exact hplace s hsession
    · rw [Function.update_of_ne hown] at hsession
      rw [callsOf_append]
      apply Place.later
      apply (h.places other s hsession).frame
      · intro entry hentry
        rw [hmore entry hentry]
        exact fun heq => hown heq.symm
      · intro copy hwriter
        exact hfile other copy (fun heq => hown heq.symm) hwriter
  returned := by
    intro call hcall
    obtain ⟨entry, hentry, hsame⟩ := h.returned call hcall
    exact ⟨entry, List.mem_append_left _ hentry, hsame⟩

/-- A connection that commits nothing. -/
theorem Serial.put_nil (h : Serial sqlite w moves log) {session : Option Session}
    (hcommitted : file.committed = w.file.committed)
    (hplace : ∀ s, session = some s → Place sqlite file log c (callsOf c (moves ++ [move])) s)
    (hfile : ∀ other copy, c ≠ other → w.file.writer = some (other, copy) → file = w.file) :
    Serial sqlite (w.put c file session) (moves ++ [move]) log := by
  rw [← List.append_nil log]
  apply h.put (List.forall_mem_nil _)
  · rw [List.append_nil, hcommitted]
    exact h.history
  · rw [List.append_nil, callsOf_append]
    exact (h.ordered c).trans (List.sublist_append_left ..)
  · rw [List.append_nil]
    exact hplace
  · exact hfile

theorem step_serial (h : Serial sqlite w moves log) {out : Unit}
    (hstep : w.step sqlite move = some (out, w')) :
    ∃ more, Serial sqlite w' (moves ++ [move]) (log ++ more) := by
  cases move with
  | call c identity events =>
    unfold World.step at hstep
    dsimp only at hstep
    split at hstep
    · cases hstep
    obtain ⟨_, rfl⟩ := Prod.mk.inj (Option.some.inj hstep)
    refine ⟨[], ?_⟩
    rw [List.append_nil]
    refine h.put_nil rfl ?_ fun _ _ _ _ => rfl
    intro s hs
    obtain rfl := Option.some.inj hs
    apply Place.waiting
    rw [callsOf_append, callsOf_call, if_pos rfl]
    exact (h.ordered c).append (List.Sublist.refl _)
  | next c =>
    unfold World.step at hstep
    dsimp only at hstep
    split at hstep
    · rename_i identity call rest kept hsession
      have hplace := (h.places c _ hsession).later (callsOf c [.next c])
      split at hstep
      · cases hstep
      rename_i file kept' hexecute
      obtain ⟨_, rfl⟩ := Prod.mk.inj (Option.some.inj hstep)
      have hordered : (commitsOf c log).Sublist (callsOf c moves ++ callsOf c [.next c]) :=
        (h.ordered c).trans (List.sublist_append_left ..)
      obtain ⟨more, hmore, hhistory, hcommits, hnext⟩ := hplace.next hordered h.history hexecute
      rw [← callsOf_append] at hcommits hnext
      refine ⟨more, h.put hmore hhistory hcommits ?_ ?_⟩
      · intro s hs
        obtain rfl := Option.some.inj hs
        exact hnext
      · intro other copy hne hwriter
        exact execute_of_other hne hwriter hexecute
    · cases hstep
  | fail c =>
    unfold World.step at hstep
    dsimp only at hstep
    refine ⟨[], ?_⟩
    rw [List.append_nil]
    split at hstep
    · obtain ⟨_, rfl⟩ := Prod.mk.inj (Option.some.inj hstep)
      exact h.put_nil rfl nofun fun _ _ _ _ => rfl
    · obtain ⟨_, rfl⟩ := Prod.mk.inj (Option.some.inj hstep)
      refine h.put_nil File.rollback_committed nofun ?_
      intro other copy hne hwriter
      exact File.rollback_of_not_writer (working_of_other hne hwriter)
    · cases hstep
  | finish c =>
    unfold World.step at hstep
    dsimp only at hstep
    refine ⟨[], ?_⟩
    rw [List.append_nil]
    split at hstep
    · rename_i identity kept hsession
      have hplace := h.places c _ hsession
      obtain ⟨_, rfl⟩ := Prod.mk.inj (Option.some.inj hstep)
      have hput : Serial sqlite (w.put c w.file none) (moves ++ [.finish c]) log :=
        h.put_nil rfl nofun fun _ _ _ _ => rfl
      refine ⟨hput.history, hput.ordered, hput.places, ?_⟩
      intro call hcall
      rcases List.mem_append.mp hcall with hcall | hcall
      · exact h.returned call hcall
      · rw [List.mem_singleton.mp hcall]
        generalize hnil : (⟨identity, [], kept⟩ : Session) = session at hplace
        cases hplace with
        | waiting _ => cases hnil
        | inside _ _ _ _ => simp at hnil
        | behind _ hlogged =>
          cases hnil
          obtain ⟨stored, hstored, hid, hidentity⟩ := hlogged
          exact ⟨_, hstored, hid, hidentity⟩
    · cases hstep

/-- However the connections interleave and whichever of their calls fail: what is committed
is what the stores of a log leave one after the other. The log of a later state goes on from
that of an earlier one; each connection has its commits there in the order of its calls, and
what was returned is in it. -/
theorem stores_serializable {later : List (Move κ)} {outs outs' : List Unit}
    (hrun : Machine.run (World.step sqlite) World.start moves = some (outs, w))
    (hlater : Machine.run (World.step sqlite) w later = some (outs', w')) :
    ∃ log more : List (κ × Stored),
      History sqlite w.file.committed (log.map Prod.snd) ∧
      History sqlite w'.file.committed ((log ++ more).map Prod.snd) ∧
      (∀ c, (commitsOf c log).Sublist (callsOf c moves) ∧
        (commitsOf c (log ++ more)).Sublist (callsOf c (moves ++ later))) ∧
      (∀ call ∈ w.returned, ∃ entry ∈ log,
        entry.2.id = call.2.id ∧ entry.2.identity = call.1) ∧
      ∀ call ∈ w'.returned, ∃ entry ∈ log ++ more,
        entry.2.id = call.2.id ∧ entry.2.identity = call.1 := by
  have hkept : ∀ (w : World κ) moves log move out w', Serial sqlite w moves log →
      w.step sqlite move = some (out, w') → ∃ more, Serial sqlite w' (moves ++ [move]) (log ++ more) :=
    fun _ _ _ _ _ _ hserial hstep => step_serial hserial hstep
  obtain ⟨log, hserial⟩ := Machine.run_ghost (Serial sqlite) hkept serial_start hrun
  obtain ⟨more, hserial'⟩ := Machine.run_ghost (Serial sqlite) hkept hserial hlater
  rw [List.nil_append, List.nil_append] at hserial
  rw [List.nil_append, List.nil_append] at hserial'
  exact ⟨log, more, hserial.history, hserial'.history,
    fun c => ⟨hserial.ordered c, hserial'.ordered c⟩, hserial.returned, hserial'.returned⟩

theorem stores_serializable_twoWriters :
    ∃ (w : World Bool) (log : List (Bool × Stored)),
      w.returned.map Prod.snd = [⟨1, true⟩, ⟨2, false⟩] ∧
        History plainSqlite w.file.committed (log.map Prod.snd) := by
  have hreturned : (Machine.run (World.step plainSqlite) World.start twoWriters).map
      (fun result => result.2.returned.map Prod.snd) = some [⟨1, true⟩, ⟨2, false⟩] := by
    decide +kernel
  obtain ⟨⟨outs, w⟩, hrun, heq⟩ := Option.map_eq_some_iff.mp hreturned
  obtain ⟨log, _, hhistory, _⟩ := stores_serializable hrun (Machine.run_nil w)
  exact ⟨w, log, heq, hhistory⟩

end Runs

end ExeCell.Package.Storage
