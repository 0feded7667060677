import Mathlib.Data.List.Basic

/-!
# Files with one writer at a time

Several connections share a file. One of them at most has a write transaction open; it
works on a copy of what is committed, and nobody else sees the copy until it is committed
as a whole. A connection that rolls back leaves no trace.

`File.Sound` is what such a file keeps: an invariant of everything in it, and that an open
transaction stands in a relation to what is committed. Every operation keeps it, and what
is committed only ever moves along the relation.
-/

namespace WriteLock

variable {κ σ : Type}

/-- What is committed, and the connection that writes with its copy. -/
structure File (κ σ : Type) where
  committed : σ
  writer : Option (κ × σ) := none

namespace File

variable [DecidableEq κ]

/-- The copy of a connection that has a transaction open. -/
def working (file : File κ σ) (c : κ) : Option σ :=
  match file.writer with
  | none => none
  | some (owner, copy) => if owner = c then some copy else none

/-- What a connection reads. -/
def seen (file : File κ σ) (c : κ) : σ := (file.working c).getD file.committed

/-- A connection starts to write, if nobody else does. -/
def acquire (file : File κ σ) (c : κ) : Option (File κ σ) :=
  match file.writer with
  | none => some { file with writer := some (c, file.committed) }
  | some _ => none

/-- A connection changes its copy. -/
def write (file : File κ σ) (c : κ) (copy : σ) : Option (File κ σ) :=
  (file.working c).map fun _ => { file with writer := some (c, copy) }

def commit (file : File κ σ) (c : κ) : Option (File κ σ) :=
  (file.working c).map fun copy => { committed := copy }

def rollback (file : File κ σ) (c : κ) : File κ σ :=
  match file.working c with
  | none => file
  | some _ => { file with writer := none }

variable {file file' : File κ σ} {c other : κ} {copy copy' : σ}

theorem working_eq_some_iff : file.working c = some copy ↔ file.writer = some (c, copy) := by
  unfold working
  cases hwriter : file.writer with
  | none => simp
  | some owner =>
    obtain ⟨owner, held⟩ := owner
    dsimp only
    by_cases howner : owner = c
    · rw [if_pos howner, howner]
      simp
    · rw [if_neg howner]
      simp [howner]

theorem working_eq_none_iff : file.working c = none ↔ ∀ copy, file.writer ≠ some (c, copy) := by
  rw [Option.eq_none_iff_forall_ne_some]
  exact forall_congr' fun copy => not_congr working_eq_some_iff

theorem seen_of_writer (h : file.writer = some (c, copy)) : file.seen c = copy := by
  rw [seen, working_eq_some_iff.mpr h, Option.getD_some]

theorem seen_of_not_writer (h : file.working c = none) : file.seen c = file.committed := by
  rw [seen, h, Option.getD_none]

omit [DecidableEq κ] in
theorem acquire_eq_some_iff : file.acquire c = some file' ↔
    file.writer = none ∧ file' = { file with writer := some (c, file.committed) } := by
  unfold acquire
  cases file.writer with
  | none => simp [eq_comm]
  | some owner => simp

theorem write_eq_some_iff : file.write c copy' = some file' ↔
    ∃ copy, file.writer = some (c, copy) ∧ file' = { file with writer := some (c, copy') } := by
  unfold write
  rw [Option.map_eq_some_iff]
  exact exists_congr fun copy => and_congr working_eq_some_iff eq_comm

theorem commit_eq_some_iff : file.commit c = some file' ↔
    ∃ copy, file.writer = some (c, copy) ∧ file' = { committed := copy } := by
  unfold commit
  rw [Option.map_eq_some_iff]
  exact exists_congr fun copy => and_congr working_eq_some_iff eq_comm

@[simp] theorem rollback_committed : (file.rollback c).committed = file.committed := by
  unfold rollback
  split <;> rfl

theorem rollback_of_not_writer (h : file.working c = none) : file.rollback c = file := by
  rw [rollback, h]

theorem rollback_of_writer (h : file.writer = some (c, copy)) :
    file.rollback c = { committed := file.committed } := by
  rw [rollback, working_eq_some_iff.mpr h]

/-- The transaction of another connection is left alone. -/
theorem rollback_other (hne : other ≠ c) (h : file.writer = some (other, copy)) :
    (file.rollback c).writer = some (other, copy) := by
  have hnone : file.working c = none := by
    rw [working_eq_none_iff, h]
    intro held heq
    exact hne (Prod.mk.inj (Option.some.inj heq)).1
  rw [rollback_of_not_writer hnone, h]

/-! ## What every operation keeps -/

/-- Everything in the file meets the invariant, and an open transaction has come from what
is committed along the relation. -/
structure Sound (I : σ → Prop) (R : σ → σ → Prop) (file : File κ σ) : Prop where
  committed : I file.committed
  copy : ∀ c copy, file.writer = some (c, copy) → I copy ∧ R file.committed copy

variable {I : σ → Prop} {R : σ → σ → Prop}

omit [DecidableEq κ] in
theorem Sound.acquire (h : file.Sound I R) (hrefl : ∀ a, R a a) (hacquire : file.acquire c = some file') :
    file'.Sound I R := by
  obtain ⟨_, rfl⟩ := acquire_eq_some_iff.mp hacquire
  refine ⟨h.committed, ?_⟩
  intro owner copy heq
  obtain ⟨_, rfl⟩ := Prod.mk.inj (Option.some.inj heq)
  exact ⟨h.committed, hrefl _⟩

theorem Sound.write (h : file.Sound I R) (hwriter : file.writer = some (c, copy)) (hI : I copy')
    (htrans : R file.committed copy → R file.committed copy')
    (hwrite : file.write c copy' = some file') : file'.Sound I R := by
  obtain ⟨_, _, rfl⟩ := write_eq_some_iff.mp hwrite
  refine ⟨h.committed, ?_⟩
  intro owner held heq
  obtain ⟨_, rfl⟩ := Prod.mk.inj (Option.some.inj heq)
  exact ⟨hI, htrans (h.copy c copy hwriter).2⟩

theorem Sound.commit (h : file.Sound I R) (hcommit : file.commit c = some file') :
    file'.Sound I R ∧ R file.committed file'.committed := by
  obtain ⟨copy, hwriter, rfl⟩ := commit_eq_some_iff.mp hcommit
  obtain ⟨hI, hR⟩ := h.copy c copy hwriter
  exact ⟨⟨hI, nofun⟩, hR⟩

theorem Sound.rollback (h : file.Sound I R) (c : κ) : (file.rollback c).Sound I R := by
  refine ⟨by rw [rollback_committed]; exact h.committed, ?_⟩
  intro owner copy heq
  rw [rollback_committed]
  unfold File.rollback at heq
  split at heq
  · exact h.copy owner copy heq
  · cases heq

end File

end WriteLock
