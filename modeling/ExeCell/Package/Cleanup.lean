import ExeCell.Lib.Listing
import ExeCell.Package.Scan

/-!
# Cleaning up

`package::cleanup`: one loop over the session root and one over the temporary directory,
both with the same `error_code`. Every call that takes it writes it, and clears it when it
succeeds. The lookup of the temporary directory stands between the loops, so that no error
of the first one is left behind it.

`cleanup_truthful_iff` says when the result can be trusted.
-/

namespace ExeCell.Package.Cleanup

open Listing (Entry Pruned children remove removeEach mem_children mem_remove mem_removeEach
  pruned_remove)

/-- What an entry of a directory is, and of a link whether it leads to a directory. -/
inductive Node where
  | directory
  | symlink (toDirectory : Bool)
  | other
  deriving DecidableEq, Repr

/-- What the link leads to, where there is one. -/
def Node.leadsToDirectory : Node → Bool
  | .directory => true
  | .symlink toDirectory => toDirectory
  | .other => false

def Node.isSymlink : Node → Bool
  | .symlink _ => true
  | _ => false

abbrev Place := List Text

abbrev Files := List (Entry Text Node)

def isDirectory (files : Files) (place : Place) : Bool :=
  place = [] || files.any fun entry => entry.place = place && entry.node = .directory

/-- The two loops: over the session root, and over the temporary directory. -/
inductive Half where
  | sessions
  | packages
  deriving DecidableEq, Repr

/-- How the names of the directories begin that a loop removes. -/
def Half.marker : Half → Text
  | .sessions => "session-".toList
  | .packages => "execell-package-".toList

/-- The calls that take the `error_code`. -/
inductive Query where
  | isDirectory (half : Half)
  /-- Only the session root is asked for being a link. -/
  | isSymlink
  | tempDirectoryPath
  | directoryIterator (half : Half)
  | entryIsDirectory (half : Half) (name : Text)
  | entryIsSymlink (half : Half) (name : Text)
  | removeAll (half : Half) (name : Text)
  deriving DecidableEq, Repr

/-- The file system that `cleanup` finds, and what its calls report. -/
structure Host where
  files : Files
  /-- The directory that the session root leads to. -/
  sessionRoot : Place
  /-- The session root is itself a link. -/
  sessionRootSymlink : Bool := false
  temp : Place
  /-- The message of the error of a call. -/
  error : Query → Option Text := fun _ => none
  /-- The increment of the iterator behind an entry throws. -/
  incrementThrows : Half → Text → Bool := fun _ _ => false
  /-- What a removal that fails has removed below its directory by then. -/
  removedBelow : Half → Text → List (Text × Place) := fun _ _ => []

def Host.root (host : Host) : Half → Place
  | .sessions => host.sessionRoot
  | .packages => host.temp

/-! ## `cleanup` -/

/-- A query of the file system: its answer, which is false with an error, and the new value of
the `error_code`. -/
def Host.answer (host : Host) (query : Query) (value : Bool) : Bool × Option Text :=
  match host.error query with
  | some message => (false, some message)
  | none => (value, none)

/-- The condition on an entry, with the `error_code` behind it. -/
def Host.selects (host : Host) (half : Half) (entry : Entry Text Node) : Bool × Option Text :=
  let (directory, error) :=
    host.answer (.entryIsDirectory half entry.name) entry.node.leadsToDirectory
  if !directory then (false, error)
  else
    let (symlink, error) := host.answer (.entryIsSymlink half entry.name) entry.node.isSymlink
    (!symlink && half.marker.isPrefixOf entry.name, error)

/-- `remove_all` for an entry; when it fails, the directory itself stays. -/
def Host.removeAll (host : Host) (half : Half) (files : Files) (entry : Entry Text Node) :
    Files × Option Text :=
  match host.error (.removeAll half entry.name) with
  | none => (remove files entry.place, none)
  | some message =>
    (removeEach files
      ((host.removedBelow half entry.name).map fun below => entry.place ++ below.1 :: below.2),
      some message)

/-- One turn of a loop. -/
def Host.visit (host : Host) (half : Half) (files : Files) (entry : Entry Text Node) :
    Files × Option Text :=
  if (host.selects half entry).1 then host.removeAll half files entry
  else (files, (host.selects half entry).2)

/-- A loop from a turn without an error on; there is no answer when it throws. An error ends it
with the next turn, if there is one. -/
def Host.visitAll (host : Host) (half : Half) :
    List (Entry Text Node) → Files → Option (Files × Option Text)
  | [], files => some (files, none)
  | entry :: entries, files =>
    let (files, error) := host.visit half files entry
    if host.incrementThrows half entry.name then none
    else if error.isSome then some (files, error)
    else host.visitAll half entries files

def Host.iterate (host : Host) (half : Half) (files : Files) : Option (Files × Option Text) :=
  match host.error (.directoryIterator half) with
  | some message => some (files, some message)
  | none => host.visitAll half (children files (host.root half)) files

/-- `cleanup` up to the first loop. -/
def Host.cleanSessions (host : Host) : Option (Files × Option Text) :=
  let (directory, error) :=
    host.answer (.isDirectory .sessions) (isDirectory host.files host.sessionRoot)
  if !directory then some (host.files, error)
  else
    let (symlink, error) := host.answer .isSymlink host.sessionRootSymlink
    if symlink then some (host.files, error)
    else host.iterate .sessions host.files

/-- `temp_directory_path`, as the error that it leaves. -/
def Host.tempDirectoryPath (host : Host) (files : Files) : Option Text :=
  match host.error .tempDirectoryPath with
  | some message => some message
  | none => if isDirectory files host.temp then none else some "Not a directory".toList

/-- `cleanup` behind the first loop. -/
def Host.cleanPackages (host : Host) (files : Files) : Option (Files × Option Text) :=
  match host.tempDirectoryPath files with
  | some message => some (files, some message)
  | none =>
    let (directory, error) :=
      host.answer (.isDirectory .packages) (isDirectory files host.temp)
    if !directory then some (files, error) else host.iterate .packages files

/-- `cleanup`, with the files it leaves. -/
def Host.cleanup (host : Host) : Option (Files × Result) :=
  match host.cleanSessions with
  | none => none
  | some (files, _) =>
    -- the lookup of the temporary directory writes the `error_code` anew
    match host.cleanPackages files with
    | none => none
    | some (files, none) => some (files, { metadata := { package := [] }, ok := true })
    | some (files, some message) =>
      some (files,
        { metadata := { package := [] }, error := "cleanup failed: ".toList ++ message })

/-! ## What the result says -/

/-- A real directory with the name of those that the loop removes. -/
structure Host.Marked (host : Host) (half : Half) (entry : Entry Text Node) : Prop where
  parent : entry.parent = host.root half
  directory : entry.node = .directory
  name : half.marker <+: entry.name

/-- If the result is `ok`, none of the directories is left that the two loops are there for. -/
def Host.Truthful (host : Host) (files : Files) (result : Result) : Prop :=
  result.ok = true → ∀ half, ∀ entry ∈ files, ¬ host.Marked half entry

/-! ## Conditions on the calls -/

/-- One of the calls on an entry leaves an error behind the turn. -/
def Host.fails (host : Host) (half : Half) (entry : Entry Text Node) : Bool :=
  if (host.selects half entry).1 then (host.error (.removeAll half entry.name)).isSome
  else (host.selects half entry).2.isSome

/-- The calls on an entry remove it. -/
def Host.deletes (host : Host) (half : Half) (entry : Entry Text Node) : Bool :=
  (host.selects half entry).1 && (host.error (.removeAll half entry.name)).isNone

/-- The first loop is entered. -/
structure Host.EntersSessions (host : Host) : Prop where
  directory : isDirectory host.files host.sessionRoot = true
  isDirectory : host.error (.isDirectory .sessions) = none
  notSymlink : host.sessionRootSymlink = false ∨ host.error .isSymlink ≠ none
  iterator : host.error (.directoryIterator .sessions) = none

/-- The first loop comes to an entry at the place of this one, and removes it. -/
def Host.Swept (host : Host) (entry : Entry Text Node) : Prop :=
  host.EntersSessions ∧
    ∃ other ∈ (children host.files host.sessionRoot).takeWhile (!host.fails .sessions ·),
      host.deletes .sessions other = true ∧ other.place = entry.place

/-- Every session directory is removed by the first loop, or lies in a directory that the
second one removes. -/
def Host.Cleared (host : Host) : Prop :=
  ∀ entry ∈ host.files, host.Marked .sessions entry →
    host.Swept entry ∨
      ∃ other ∈ children host.files host.temp,
        host.deletes .packages other = true ∧ other.place <+: entry.place

/-- With these files at its beginning, one of the calls behind the first loop leaves an
error. -/
def Host.PackagesFail (host : Host) (files : Files) : Prop :=
  host.tempDirectoryPath files ≠ none ∨ host.error (.isDirectory .packages) ≠ none ∨
    host.error (.directoryIterator .packages) ≠ none ∨
    ∃ entry ∈ children files host.temp, host.fails .packages entry = true

/-! ## One turn -/

section Turn

variable {host : Host} {half : Half} {files : Files} {entry other : Entry Text Node}

theorem visit_error (host : Host) (half : Half) (files : Files) (entry : Entry Text Node) :
    (host.visit half files entry).2.isSome = host.fails half entry := by
  rw [Host.visit, Host.fails]
  split
  · rw [Host.removeAll]
    split <;> simp_all
  · rfl

theorem pruned_visit (host : Host) (half : Half) (files : Files) (entry : Entry Text Node) :
    Pruned files (host.visit half files entry).1 := by
  rw [Host.visit]
  split
  · rw [Host.removeAll]
    split
    · exact pruned_remove files entry.place
    · exact ⟨_, rfl⟩
  · exact Pruned.refl files

/-- A turn that leaves no error removes what is at or below an entry, or nothing. -/
theorem mem_visit (h : host.fails half entry = false) :
    other ∈ (host.visit half files entry).1 ↔
      other ∈ files ∧ ¬ (host.deletes half entry = true ∧ entry.place <+: other.place) := by
  rw [Host.fails] at h
  rw [Host.visit, Host.deletes]
  by_cases hselected : (host.selects half entry).1 = true
  · rw [if_pos hselected, Option.isSome_eq_false_iff, Option.isNone_iff_eq_none] at h
    rw [if_pos hselected, Host.removeAll, h, hselected]
    simp only [Option.isNone_none, Bool.and_self, true_and]
    exact mem_remove
  · rw [if_neg hselected]
    simp [hselected]

/-- Of the entries of its own directory, a turn that leaves an error removes none. -/
theorem mem_visit_of_fails (h : host.fails half entry = true) (hparent : entry.parent = other.parent) :
    other ∈ (host.visit half files entry).1 ↔ other ∈ files := by
  rw [Host.fails] at h
  rw [Host.visit]
  split
  · rename_i hselected
    rw [if_pos hselected, Option.isSome_iff_exists] at h
    obtain ⟨message, hmessage⟩ := h
    rw [Host.removeAll, hmessage]
    dsimp only
    rw [mem_removeEach]
    refine and_iff_left_of_imp fun _ => ?_
    intro place hplace
    obtain ⟨below, -, rfl⟩ := List.mem_map.mp hplace
    exact Listing.not_prefix_of_below hparent below.1 below.2
  · exact Iff.rfl

/-- A real directory that the loop is there for is removed, unless one of the calls on it leaves
an error. -/
theorem deletes_of_marked (h : host.Marked half entry) (hfails : host.fails half entry = false) :
    host.deletes half entry = true := by
  have hselected : (host.selects half entry).1 = true := by
    rw [Host.fails] at hfails
    rw [Host.selects, Host.answer] at hfails ⊢
    rw [h.directory] at hfails ⊢
    cases hdirectory : host.error (.entryIsDirectory half entry.name) with
    | some message =>
      rw [hdirectory] at hfails
      simp at hfails
    | none =>
      have hmarker : half.marker.isPrefixOf entry.name = true :=
        List.isPrefixOf_iff_prefix.mpr h.name
      -- a link would not be removed, and neither an error nor the truth makes it one
      rw [Host.answer]
      cases host.error (.entryIsSymlink half entry.name) with
      | some message => simp [Node.leadsToDirectory, hmarker]
      | none => simp [Node.leadsToDirectory, Node.isSymlink, hmarker]
  rw [Host.fails, if_pos hselected, Option.isSome_eq_false_iff] at hfails
  rw [Host.deletes, hselected, Bool.true_and]
  exact hfails

end Turn

/-! ## A loop -/

section Loop

variable {host : Host} {half : Half} {entries : List (Entry Text Node)} {files after : Files}
  {error : Option Text} {entry other : Entry Text Node}

/-- A loop that does not throw: its first turn leaves an error and ends it, or the rest of the
entries follows. -/
theorem visitAll_cons (h : host.visitAll half (entry :: entries) files = some (after, error)) :
    (host.fails half entry = true ∧ after = (host.visit half files entry).1 ∧ error ≠ none) ∨
      (host.fails half entry = false ∧
        host.visitAll half entries (host.visit half files entry).1 = some (after, error)) := by
  have herror := visit_error host half files entry
  rw [Host.visitAll] at h
  dsimp only at h
  split at h
  · cases h
  rw [herror] at h
  cases hfails : host.fails half entry with
  | true =>
    rw [hfails] at h herror
    obtain ⟨rfl, rfl⟩ := Prod.mk.inj (Option.some.inj h)
    exact Or.inl ⟨rfl, rfl, Option.isSome_iff_ne_none.mp herror⟩
  | false =>
    rw [hfails] at h
    exact Or.inr ⟨rfl, h⟩

theorem pruned_visitAll (h : host.visitAll half entries files = some (after, error)) :
    Pruned files after := by
  induction entries generalizing files with
  | nil =>
    obtain ⟨rfl, -⟩ := Prod.mk.inj (Option.some.inj h)
    exact Pruned.refl files
  | cons entry entries ih =>
    have hfirst := pruned_visit host half files entry
    obtain ⟨-, rfl, -⟩ | ⟨-, hrest⟩ := visitAll_cons h
    · exact hfirst
    · exact hfirst.trans (ih hrest)

/-- A loop leaves an error exactly when one of its turns does. -/
theorem visitAll_error (h : host.visitAll half entries files = some (after, error)) :
    error = none ↔ ∀ entry ∈ entries, host.fails half entry = false := by
  induction entries generalizing files with
  | nil =>
    obtain ⟨-, rfl⟩ := Prod.mk.inj (Option.some.inj h)
    exact iff_of_true rfl (List.forall_mem_nil _)
  | cons entry entries ih =>
    rw [List.forall_mem_cons]
    obtain ⟨hfails, -, hne⟩ | ⟨hfails, hrest⟩ := visitAll_cons h
    · exact iff_of_false hne (by simp [hfails])
    · rw [ih hrest, hfails]
      exact (and_iff_right rfl).symm

/-- A loop that ends with an error has come to an entry that leaves one. -/
theorem exists_fails_of_error {message : Text}
    (h : host.visitAll half entries files = some (after, some message)) :
    ∃ entry ∈ entries, host.fails half entry = true := by
  by_contra hnone
  have hall : ∀ entry ∈ entries, host.fails half entry = false := by
    intro entry hentry
    by_contra hfails
    exact hnone ⟨entry, hentry, by simpa using hfails⟩
  cases (visitAll_error h).mpr hall

/-- What a loop without an error leaves. -/
theorem mem_visitAll (h : host.visitAll half entries files = some (after, error))
    (hnone : error = none) :
    other ∈ after ↔ other ∈ files ∧
      ∀ entry ∈ entries, host.deletes half entry = true → ¬ entry.place <+: other.place := by
  induction entries generalizing files with
  | nil =>
    obtain ⟨rfl, -⟩ := Prod.mk.inj (Option.some.inj h)
    simp
  | cons entry entries ih =>
    obtain ⟨-, -, hne⟩ | ⟨hfails, hrest⟩ := visitAll_cons h
    · exact absurd hnone hne
    · rw [ih hrest, mem_visit hfails, List.forall_mem_cons, not_and, and_assoc]

/-- What a loop leaves of the directory it goes through: it removes entries up to the first one
that leaves an error. -/
theorem mem_visitAll_of_parent (h : host.visitAll half entries files = some (after, error))
    (hparent : ∀ entry ∈ entries, entry.parent = other.parent) :
    other ∈ after ↔ other ∈ files ∧
      ¬ ∃ entry ∈ entries.takeWhile (!host.fails half ·),
        host.deletes half entry = true ∧ entry.place = other.place := by
  induction entries generalizing files with
  | nil =>
    obtain ⟨rfl, -⟩ := Prod.mk.inj (Option.some.inj h)
    simp
  | cons entry entries ih =>
    obtain ⟨hfirst, hlater⟩ := List.forall_mem_cons.mp hparent
    obtain ⟨hfails, rfl, -⟩ | ⟨hfails, hrest⟩ := visitAll_cons h
    · rw [mem_visit_of_fails hfails hfirst, List.takeWhile_cons_of_neg (by simp [hfails])]
      simp
    · have hplace : entry.place <+: other.place ↔ entry.place = other.place := by
        constructor
        · exact Listing.place_eq_of_prefix hfirst
        · intro heq
          exact heq ▸ List.prefix_rfl
      rw [ih hrest hlater, mem_visit hfails, hplace, List.takeWhile_cons_of_pos (by simp [hfails]),
        List.exists_mem_cons_iff, not_or, and_assoc]

end Loop

/-! ## The two halves -/

section Halves

variable {host : Host} {files after : Files} {error : Option Text} {entry : Entry Text Node}

theorem iterate_of_none {half : Half} (h : host.error (.directoryIterator half) = none) :
    host.iterate half files = host.visitAll half (children files (host.root half)) files := by
  rw [Host.iterate, h]

/-- The session root is not taken for a link when it is none, or when it cannot be asked. -/
theorem answer_isSymlink_iff :
    (host.answer .isSymlink host.sessionRootSymlink).1 = false ↔
      host.sessionRootSymlink = false ∨ host.error .isSymlink ≠ none := by
  rw [Host.answer]
  cases host.error .isSymlink with
  | some message => exact iff_of_true rfl (Or.inr nofun)
  | none => simp

/-- A temporary directory that is found is one. -/
theorem isDirectory_of_found (h : host.tempDirectoryPath files = none) :
    isDirectory files host.temp = true := by
  rw [Host.tempDirectoryPath] at h
  split at h
  · cases h
  · split at h
    · assumption
    · cases h

/-- The first loop is entered, or nothing is removed. -/
theorem cleanSessions_cases (h : host.cleanSessions = some (files, error)) :
    (host.EntersSessions ∧
      host.visitAll .sessions (children host.files host.sessionRoot) host.files =
        some (files, error)) ∨
      (¬ host.EntersSessions ∧ files = host.files) := by
  rw [Host.cleanSessions] at h
  by_cases henters : host.EntersSessions
  · refine Or.inl ⟨henters, ?_⟩
    obtain ⟨hdirectory, herror, hlink, hiterator⟩ := henters
    rw [← h, Host.answer, herror, hdirectory]
    dsimp only
    rw [answer_isSymlink_iff.mpr hlink, if_neg (by simp), if_neg Bool.false_ne_true, iterate_of_none hiterator]
    rfl
  · refine Or.inr ⟨henters, ?_⟩
    have hsame : ∀ result : Option Text, some (host.files, result) = some (files, error) →
        files = host.files := by
      intro result heq
      exact (Prod.mk.inj (Option.some.inj heq)).1.symm
    rw [Host.answer] at h
    cases hdirectory : host.error (.isDirectory .sessions) with
    | some message =>
      rw [hdirectory] at h
      exact hsame _ h
    | none =>
      rw [hdirectory] at h
      dsimp only at h
      split at h
      · exact hsame _ h
      rename_i hroot
      split at h
      · exact hsame _ h
      rename_i hlink
      rw [Host.iterate] at h
      split at h
      · exact hsame _ h
      rename_i hiterator
      -- all of the loop's conditions hold
      refine absurd ⟨by simpa using hroot, hdirectory, ?_, hiterator⟩ henters
      exact answer_isSymlink_iff.mp (by simpa using hlink)

theorem pruned_cleanSessions (h : host.cleanSessions = some (files, error)) :
    Pruned host.files files := by
  obtain ⟨-, hloop⟩ | ⟨-, rfl⟩ := cleanSessions_cases h
  · exact pruned_visitAll hloop
  · exact Pruned.refl host.files

/-- What the first half leaves in the session root. -/
theorem mem_cleanSessions (h : host.cleanSessions = some (files, error))
    (hparent : entry.parent = host.sessionRoot) :
    entry ∈ files ↔ entry ∈ host.files ∧ ¬ host.Swept entry := by
  rw [Host.Swept]
  obtain ⟨henters, hloop⟩ | ⟨hnot, rfl⟩ := cleanSessions_cases h
  · rw [and_iff_right henters]
    apply mem_visitAll_of_parent hloop
    intro other hother
    rw [(mem_children.mp hother).2, hparent]
  · simp [hnot]

/-- The second half without an error has gone through its loop. -/
theorem cleanPackages_cases (h : host.cleanPackages files = some (after, error)) :
    (error ≠ none ∧ host.PackagesFail files) ∨
      (error = none ∧ ¬ host.PackagesFail files ∧
        host.visitAll .packages (children files host.temp) files = some (after, none)) := by
  rw [Host.cleanPackages] at h
  cases htemp : host.tempDirectoryPath files with
  | some message =>
    rw [htemp] at h
    obtain ⟨-, rfl⟩ := Prod.mk.inj (Option.some.inj h)
    exact Or.inl ⟨nofun, Or.inl (by rw [htemp]; nofun)⟩
  | none =>
    rw [htemp, Host.answer, isDirectory_of_found htemp] at h
    cases hdirectory : host.error (.isDirectory .packages) with
    | some message =>
      rw [hdirectory] at h
      obtain ⟨-, rfl⟩ := Prod.mk.inj (Option.some.inj h)
      exact Or.inl ⟨nofun, Or.inr (Or.inl (by rw [hdirectory]; nofun))⟩
    | none =>
      rw [hdirectory] at h
      dsimp only at h
      rw [if_neg (by simp)] at h
      cases hiterator : host.error (.directoryIterator .packages) with
      | some message =>
        rw [Host.iterate, hiterator] at h
        obtain ⟨-, rfl⟩ := Prod.mk.inj (Option.some.inj h)
        exact Or.inl ⟨nofun, Or.inr (Or.inr (Or.inl (by rw [hiterator]; nofun)))⟩
      | none =>
        rw [iterate_of_none hiterator] at h
        have hfail : host.PackagesFail files ↔
            ∃ entry ∈ children files host.temp, host.fails .packages entry = true := by
          rw [Host.PackagesFail, htemp, hdirectory, hiterator]
          simp
        rw [hfail]
        cases error with
        | some message =>
          exact Or.inl ⟨nofun, exists_fails_of_error h⟩
        | none =>
          refine Or.inr ⟨rfl, ?_, h⟩
          intro hsome
          obtain ⟨entry, hentry, hfails⟩ := hsome
          rw [(visitAll_error h).mp rfl entry hentry] at hfails
          cases hfails

end Halves

/-- For every content of the two directories and every pattern of errors with which `cleanup`
returns: its result can be trusted if and only if a call behind the first loop leaves an
error, or each of the session directories is removed. -/
theorem cleanup_truthful_iff (host : Host) {left after : Files} {error : Option Text}
    {result : Result} (hleft : host.cleanSessions = some (left, error))
    (h : host.cleanup = some (after, result)) :
    host.Truthful after result ↔ host.PackagesFail left ∨ host.Cleared := by
  rw [Host.cleanup, hleft] at h
  dsimp only at h
  have hpruned := pruned_cleanSessions hleft
  split at h
  · cases h
  · -- no error is left, so that the second loop has removed all that it is there for
    rename_i final hpackages
    obtain ⟨rfl, rfl⟩ := Prod.mk.inj (Option.some.inj h)
    obtain ⟨hne, -⟩ | ⟨-, hnotFail, hloop⟩ := cleanPackages_cases hpackages
    · exact absurd rfl hne
    have hfails := (visitAll_error hloop).mp rfl
    rw [or_iff_right hnotFail]
    constructor
    · intro htruthful entry hentry hmarked
      by_contra hnot
      rw [not_or] at hnot
      obtain ⟨hnotSwept, hnotBelow⟩ := hnot
      refine htruthful rfl .sessions entry ?_ hmarked
      have hlater := (mem_cleanSessions hleft hmarked.parent).mpr ⟨hentry, hnotSwept⟩
      refine (mem_visitAll hloop rfl).mpr ⟨hlater, ?_⟩
      intro other hother hdeletes hbelow
      obtain ⟨hmem, hparent⟩ := mem_children.mp hother
      exact hnotBelow ⟨other, mem_children.mpr ⟨hpruned.subset hmem, hparent⟩, hdeletes, hbelow⟩
    · intro hcleared _ half entry hentry hmarked
      obtain ⟨hlater, hkept⟩ := (mem_visitAll hloop rfl).mp hentry
      cases half with
      | packages =>
        have hchild := mem_children.mpr ⟨hlater, hmarked.parent⟩
        exact hkept entry hchild (deletes_of_marked hmarked (hfails entry hchild)) List.prefix_rfl
      | sessions =>
        obtain ⟨hmem, hnotSwept⟩ := (mem_cleanSessions hleft hmarked.parent).mp hlater
        obtain hswept | ⟨other, hother, hdeletes, hbelow⟩ := hcleared entry hmem hmarked
        · exact hnotSwept hswept
        · -- a directory on the way to what is left is left by the first loop as well
          obtain ⟨hfirst, hparent⟩ := mem_children.mp hother
          have hway := hpruned.on_way hlater hfirst hbelow
          exact hkept other (mem_children.mpr ⟨hway, hparent⟩) hdeletes hbelow
  · rename_i final message hpackages
    obtain ⟨rfl, rfl⟩ := Prod.mk.inj (Option.some.inj h)
    obtain ⟨-, hfail⟩ | ⟨hnone, -, -⟩ := cleanPackages_cases hpackages
    · exact iff_of_true nofun (Or.inl hfail)
    · cases hnone

/-- A session root with one session, and an empty temporary directory. -/
def oneSession (error : Query → Option Text) : Host where
  files :=
    [⟨[], "sessions".toList, .directory⟩, ⟨["sessions".toList], "session-1".toList, .directory⟩,
      ⟨[], "tmp".toList, .directory⟩]
  sessionRoot := ["sessions".toList]
  temp := ["tmp".toList]
  error := error

/-- Without an error the session is removed. -/
theorem cleanup_truthful_quiet :
    (oneSession fun _ => none).Truthful
      [⟨[], "sessions".toList, .directory⟩, ⟨[], "tmp".toList, .directory⟩]
      { metadata := { package := [] }, ok := true } := by
  have hquiet : ∀ entry ∈ (oneSession fun _ => none).files,
      (oneSession fun _ => none).fails .sessions entry = false := by decide
  apply (cleanup_truthful_iff (oneSession fun _ => none) rfl rfl).mpr
  refine Or.inr ?_
  intro entry hentry hmarked
  refine Or.inl ⟨⟨by decide, rfl, Or.inl rfl, rfl⟩, entry, ?_, ?_, rfl⟩
  · rw [List.takeWhile_eq_self_iff.mpr (by decide)]
    exact mem_children.mpr ⟨hentry, hmarked.parent⟩
  · exact deletes_of_marked hmarked (hquiet entry hentry)

/-- The removal of the session fails, and the session is still there when `cleanup` is `ok`. -/
theorem not_truthful_refused :
    let host := oneSession fun query =>
      if query = .removeAll .sessions "session-1".toList then some "Permission denied".toList
      else none
    let result : Result := { metadata := { package := [] }, ok := true }
    host.cleanup = some (host.files, result) ∧ ¬ host.Truthful host.files result := by
  refine ⟨by decide, ?_⟩
  intro htruthful
  refine htruthful rfl .sessions ⟨["sessions".toList], "session-1".toList, .directory⟩ ?_ ?_
  · decide
  · exact ⟨rfl, rfl, by decide⟩

end ExeCell.Package.Cleanup
