import Mathlib.Data.List.Infix

/-!
# Directories as listings

What lies below a root, as a list: every entry with the directory it is in, its name there
and what it is. The entries of a directory stand in the list in the order in which it is
read. A place is the list of names from the root on.
-/

namespace Listing

structure Entry (α ν : Type) where
  parent : List α
  name : α
  node : ν
  deriving DecidableEq, Repr

variable {α ν : Type}

def Entry.place (entry : Entry α ν) : List α := entry.parent ++ [entry.name]

section Operations

variable [DecidableEq α]

/-- The entries of a directory. -/
def children (files : List (Entry α ν)) (place : List α) : List (Entry α ν) :=
  files.filter fun entry => entry.parent = place

/-- The files without what is at or below a place. -/
def remove (files : List (Entry α ν)) (place : List α) : List (Entry α ν) :=
  files.filter fun entry => !place.isPrefixOf entry.place

/-- The files without what is at or below one of the places. -/
def removeEach (files : List (Entry α ν)) (places : List (List α)) : List (Entry α ν) :=
  places.foldl remove files

variable {files after : List (Entry α ν)} {place : List α} {places : List (List α)}
  {entry other : Entry α ν}

theorem mem_children : entry ∈ children files place ↔ entry ∈ files ∧ entry.parent = place := by
  rw [children, List.mem_filter, decide_eq_true_iff]

theorem mem_remove : entry ∈ remove files place ↔ entry ∈ files ∧ ¬ place <+: entry.place := by
  rw [remove, List.mem_filter, Bool.not_eq_true', ← Bool.not_eq_true, List.isPrefixOf_iff_prefix]

theorem mem_removeEach :
    entry ∈ removeEach files places ↔
      entry ∈ files ∧ ∀ place ∈ places, ¬ place <+: entry.place := by
  induction places generalizing files with
  | nil => simp [removeEach]
  | cons place places ih =>
    rw [removeEach, List.foldl_cons, ← removeEach, ih, mem_remove, List.forall_mem_cons, and_assoc]

theorem removeEach_append (first second : List (List α)) :
    removeEach files (first ++ second) = removeEach (removeEach files first) second :=
  List.foldl_append

/-! ## What removals leave -/

/-- The second files are the first without what is at or below some places. -/
def Pruned (files after : List (Entry α ν)) : Prop := ∃ places, after = removeEach files places

theorem Pruned.refl (files : List (Entry α ν)) : Pruned files files := ⟨[], rfl⟩

theorem Pruned.trans {last : List (Entry α ν)} (h : Pruned files after) (h' : Pruned after last) :
    Pruned files last := by
  obtain ⟨first, rfl⟩ := h
  obtain ⟨second, rfl⟩ := h'
  exact ⟨first ++ second, (removeEach_append first second).symm⟩

theorem pruned_remove (files : List (Entry α ν)) (place : List α) :
    Pruned files (remove files place) := ⟨[place], rfl⟩

theorem Pruned.subset (h : Pruned files after) (hmem : entry ∈ after) : entry ∈ files := by
  obtain ⟨places, rfl⟩ := h
  exact (mem_removeEach.mp hmem).1

/-- What is on the way to an entry that is left is left as well. -/
theorem Pruned.on_way (h : Pruned files after) (hother : other ∈ after) (hmem : entry ∈ files)
    (hway : entry.place <+: other.place) : entry ∈ after := by
  obtain ⟨places, rfl⟩ := h
  refine mem_removeEach.mpr ⟨hmem, ?_⟩
  intro place hplace hbelow
  exact (mem_removeEach.mp hother).2 place hplace (hbelow.trans hway)

end Operations

/-- Two entries of one directory are below each other only at one place. -/
theorem place_eq_of_prefix {entry other : Entry α ν} (hparent : entry.parent = other.parent)
    (h : entry.place <+: other.place) : entry.place = other.place := by
  apply h.eq_of_length
  rw [Entry.place, Entry.place, hparent, List.length_append, List.length_append]
  rfl

/-- What is below an entry is not in its directory. -/
theorem not_prefix_of_below {entry other : Entry α ν} (hparent : entry.parent = other.parent)
    (first : α) (rest : List α) : ¬ entry.place ++ first :: rest <+: other.place := by
  intro h
  have hlength := h.length_le
  simp only [Entry.place, hparent, List.length_append, List.length_cons, List.length_nil] at hlength
  omega

end Listing
