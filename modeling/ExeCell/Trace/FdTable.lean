import Mathlib.Data.List.AList
import ExeCell.Core.Text

/-!
# Descriptor tables

`FdTable` maps the descriptors of one task to the paths they were opened as.
-/

namespace ExeCell.Trace

/-- `FdTable`; the map of the source is unordered and has one entry per descriptor. -/
structure FdTable where
  entries : AList (fun _ : Int => Text) := ∅

namespace FdTable

def track (table : FdTable) (fd : Int) (path : Text) : FdTable :=
  ⟨table.entries.insert fd path⟩

def lookup (table : FdTable) (fd : Int) : Option Text := table.entries.lookup fd

def close (table : FdTable) (fd : Int) : FdTable := ⟨table.entries.erase fd⟩

def duplicate (table : FdTable) (sourceFd targetFd : Int) : FdTable :=
  match table.lookup sourceFd with
  | none => table.close targetFd
  | some path => table.track targetFd path

/-- `close_range`: the descriptors are compared as unsigned numbers. -/
def closeRange (table : FdTable) (first last : Nat) : FdTable :=
  ⟨⟨table.entries.entries.filter fun entry =>
      !(first ≤ toUInt32 entry.1 && toUInt32 entry.1 ≤ last),
    table.entries.nodupKeys.sublist List.filter_sublist⟩⟩

/-! ## Lookups after an update -/

theorem lookup_track (table : FdTable) (fd : Int) (path : Text) :
    (table.track fd path).lookup = Function.update table.lookup fd (some path) := by
  funext query
  by_cases h : query = fd
  · subst h
    rw [Function.update_self]
    exact AList.lookup_insert _
  · rw [Function.update_of_ne h]
    exact AList.lookup_insert_ne h

theorem lookup_close (table : FdTable) (fd : Int) :
    (table.close fd).lookup = Function.update table.lookup fd none := by
  funext query
  by_cases h : query = fd
  · subst h
    rw [Function.update_self]
    exact AList.lookup_erase query _
  · rw [Function.update_of_ne h]
    exact AList.lookup_erase_ne h

/-- The target of a duplication is bound to what the source is bound to, or to nothing. -/
theorem lookup_duplicate (table : FdTable) (sourceFd targetFd : Int) :
    (table.duplicate sourceFd targetFd).lookup =
      Function.update table.lookup targetFd (table.lookup sourceFd) := by
  unfold duplicate
  cases h : table.lookup sourceFd with
  | none => exact lookup_close table targetFd
  | some path => exact lookup_track table targetFd path

theorem lookup_closeRange (table : FdTable) (first last : Nat) :
    (table.closeRange first last).lookup = fun fd =>
      if first ≤ toUInt32 fd ∧ toUInt32 fd ≤ last then none else table.lookup fd := by
  funext fd
  have hmem : ∀ path, (table.closeRange first last).lookup fd = some path ↔
      table.lookup fd = some path ∧ ¬(first ≤ toUInt32 fd ∧ toUInt32 fd ≤ last) := by
    intro path
    unfold lookup closeRange
    rw [← Option.mem_def, ← Option.mem_def, AList.mem_lookup_iff, AList.mem_lookup_iff,
      List.mem_filter]
    simp only [Bool.not_eq_true', Bool.and_eq_false_iff, decide_eq_false_iff_not, not_and_or]
  split
  · rename_i hinside
    refine Option.eq_none_iff_forall_ne_some.mpr ?_
    intro path hpath
    exact ((hmem path).mp hpath).2 hinside
  · rename_i houtside
    refine Option.ext ?_
    intro path
    rw [hmem path]
    exact and_iff_left houtside

end FdTable

end ExeCell.Trace
