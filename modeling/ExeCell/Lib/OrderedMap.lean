import Mathlib.Data.List.Lex
import Mathlib.Data.List.Nodup
import Mathlib.Order.Lattice

/-!
# Maps in the order of their keys

A map as the list of its entries, each key once and the keys in ascending order, as the
iteration over an ordered map shows them. `assign` sets the value of a key, and `assignAll`
makes the assignments of a list, of which the last one for a key counts (`lookup_assignAll`).
-/

namespace OrderedMap

variable {κ ν : Type} [LinearOrder κ]

/-- The map with this value for the key. -/
def assign (key : κ) (value : ν) : List (κ × ν) → List (κ × ν)
  | [] => [(key, value)]
  | entry :: map =>
    if key < entry.1 then (key, value) :: entry :: map
    else if key = entry.1 then (key, value) :: map
    else entry :: assign key value map

/-- The map after these assignments. -/
def assignAll (map : List (κ × ν)) (entries : List (κ × ν)) : List (κ × ν) :=
  entries.foldl (fun map entry => assign entry.1 entry.2 map) map

/-- The keys are in ascending order, so that none is there twice. -/
def Ordered (map : List (κ × ν)) : Prop := map.Pairwise fun first second => first.1 < second.1

section Order

variable {key : κ} {value : ν} {map entries : List (κ × ν)}

theorem mem_of_mem_assign {entry : κ × ν} (h : entry ∈ assign key value map) :
    entry = (key, value) ∨ entry ∈ map := by
  induction map with
  | nil => exact Or.inl (List.mem_singleton.mp h)
  | cons first map ih =>
    rw [assign] at h
    split at h
    · exact List.mem_cons.mp h
    split at h
    · obtain heq | hmem := List.mem_cons.mp h
      · exact Or.inl heq
      · exact Or.inr (List.mem_cons_of_mem _ hmem)
    · obtain heq | hmem := List.mem_cons.mp h
      · exact Or.inr (heq ▸ List.mem_cons_self)
      · obtain heq | hlater := ih hmem
        · exact Or.inl heq
        · exact Or.inr (List.mem_cons_of_mem _ hlater)

theorem ordered_assign (h : Ordered map) : Ordered (assign key value map) := by
  induction map with
  | nil => exact List.pairwise_singleton _ _
  | cons first map ih =>
    obtain ⟨hfirst, hrest⟩ := List.pairwise_cons.mp h
    rw [assign]
    split
    · rename_i hless
      refine List.pairwise_cons.mpr ⟨?_, h⟩
      intro entry hentry
      obtain rfl | hmem := List.mem_cons.mp hentry
      · exact hless
      · exact hless.trans (hfirst entry hmem)
    split
    · rename_i heq
      refine List.pairwise_cons.mpr ⟨?_, hrest⟩
      intro entry hentry
      show key < entry.1
      rw [heq]
      exact hfirst entry hentry
    · rename_i hnotLess hne
      refine List.pairwise_cons.mpr ⟨?_, ih hrest⟩
      intro entry hentry
      obtain rfl | hmem := mem_of_mem_assign hentry
      · exact lt_of_le_of_ne (not_lt.mp hnotLess) (Ne.symm hne)
      · exact hfirst entry hmem

theorem ordered_assignAll (h : Ordered map) : Ordered (assignAll map entries) := by
  induction entries generalizing map with
  | nil => exact h
  | cons entry entries ih => exact ih (ordered_assign h)

/-- The keys, and those of some of the entries, are ascending. -/
theorem Ordered.pairwise_keys (h : Ordered map) (p : κ × ν → Bool) :
    ((map.filter p).map Prod.fst).Pairwise (· < ·) :=
  List.pairwise_map.mpr (List.Pairwise.filter p h)

end Order

section Lookup

variable [BEq κ] [LawfulBEq κ] {key other : κ} {value : ν} {map entries : List (κ × ν)}

theorem lookup_assign_self (key : κ) (value : ν) (map : List (κ × ν)) :
    (assign key value map).lookup key = some value := by
  induction map with
  | nil => exact List.lookup_cons_self
  | cons first map ih =>
    rw [assign]
    split
    · exact List.lookup_cons_self
    split
    · exact List.lookup_cons_self
    · rename_i hne
      rw [List.lookup_cons, beq_false_of_ne hne]
      exact ih

theorem lookup_assign_of_ne (h : other ≠ key) :
    (assign key value map).lookup other = map.lookup other := by
  induction map with
  | nil =>
    rw [assign, List.lookup_cons, beq_false_of_ne h]
  | cons first map ih =>
    rw [assign]
    split
    · rw [List.lookup_cons, beq_false_of_ne h]
    split
    · rename_i heq
      rw [List.lookup_cons, List.lookup_cons, ← heq, beq_false_of_ne h]
    · rw [List.lookup_cons, List.lookup_cons, ih]

/-- The value of a key after assignments: that of the last one for it. -/
theorem lookup_assignAll :
    (assignAll map entries).lookup key = (entries.reverse.lookup key).or (map.lookup key) := by
  induction entries generalizing map with
  | nil => rfl
  | cons entry entries ih =>
    rw [assignAll, List.foldl_cons, ← assignAll, ih, List.reverse_cons, List.lookup_append,
      Option.or_assoc]
    congr 1
    by_cases hkey : key = entry.1
    · rw [hkey, lookup_assign_self, List.lookup_cons_self]
      rfl
    · rw [lookup_assign_of_ne hkey, List.lookup_cons, beq_false_of_ne hkey]
      rfl

/-- The entries of a map are what it says of its keys. -/
theorem mem_iff_lookup (h : (map.map Prod.fst).Nodup) :
    (key, value) ∈ map ↔ map.lookup key = some value := by
  induction map with
  | nil => exact iff_of_false (List.not_mem_nil) nofun
  | cons first map ih =>
    rw [List.map_cons, List.nodup_cons] at h
    obtain ⟨hfirst, hrest⟩ := h
    rw [List.lookup_cons]
    by_cases hkey : key = first.1
    · rw [hkey, beq_self_eq_true]
      constructor
      · intro hmem
        obtain heq | hlater := List.mem_cons.mp hmem
        · rw [← heq]
        · exact absurd (List.mem_map_of_mem (f := Prod.fst) hlater) hfirst
      · intro hvalue
        obtain rfl := Option.some.inj hvalue
        exact List.mem_cons_self
    · rw [beq_false_of_ne hkey]
      show _ ↔ map.lookup key = some value
      rw [← ih hrest, List.mem_cons, or_iff_right]
      intro heq
      exact hkey (congrArg Prod.fst heq)

omit [BEq κ] [LawfulBEq κ] in
theorem Ordered.nodup (h : Ordered map) : (map.map Prod.fst).Nodup := by
  apply List.pairwise_map.mpr
  apply h.imp
  intro first second hless
  exact hless.ne

omit [BEq κ] [LawfulBEq κ] in
/-- A map made of assignments for different keys has just these entries. -/
theorem mem_assignAll (h : (entries.map Prod.fst).Nodup) {entry : κ × ν} :
    entry ∈ assignAll [] entries ↔ entry ∈ entries := by
  obtain ⟨key, value⟩ := entry
  have hordered : Ordered (assignAll [] entries) := ordered_assignAll List.Pairwise.nil
  have hreverse : (entries.reverse.map Prod.fst).Nodup := by
    rw [List.map_reverse]
    exact List.nodup_reverse.mpr h
  rw [mem_iff_lookup hordered.nodup, lookup_assignAll, List.lookup_nil, Option.or_none,
    ← mem_iff_lookup hreverse, List.mem_reverse]

end Lookup

end OrderedMap
