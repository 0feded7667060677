import Mathlib.Data.List.Basic
import Mathlib.Data.List.Range

/-!
# Tables of rows under rowids

A table keeps its rows in the order of their rowids, which are distinct 64-bit numbers. A
new row gets the number behind the largest one, and only when that is the last number there
is, another one is tried (`Picker`).

A table that only ever grows is numbered from one on without gaps, so that no number is left
to try and a new row is always the last one (`Numbered.insert`).
-/

namespace RowidTable

/-- The largest rowid. -/
def maxRowid : Int := 9223372036854775807

structure Table (ρ : Type) where
  rows : List (Int × ρ)
  sorted : rows.Pairwise fun a b => a.1 < b.1
  deriving DecidableEq

/-- What is tried when the largest rowid is taken: a positive one that is free, if any. -/
structure Picker where
  pick : List Int → Option Int
  fresh : ∀ used id, pick used = some id → 0 < id ∧ id ≤ maxRowid ∧ id ∉ used

namespace Table

variable {ρ : Type}

instance : EmptyCollection (Table ρ) := ⟨⟨[], .nil⟩⟩

@[simp] theorem rows_empty : (∅ : Table ρ).rows = [] := rfl

def ids (table : Table ρ) : List Int := table.rows.map Prod.fst

/-- The rowid of the next row. -/
def nextId (picker : Picker) (table : Table ρ) : Option Int :=
  match table.rows.getLast? with
  | none => some 1
  | some last => if last.1 < maxRowid then some (last.1 + 1) else picker.pick table.ids

theorem sorted_insert {rows : List (Int × ρ)} (h : rows.Pairwise fun a b => a.1 < b.1) (id : Int)
    (row : ρ) :
    (rows.filter (fun a => a.1 < id) ++ (id, row) :: rows.filter (fun a => id < a.1)).Pairwise
      fun a b => a.1 < b.1 := by
  rw [List.pairwise_append, List.pairwise_cons]
  refine ⟨h.filter _, ⟨?_, h.filter _⟩, ?_⟩
  · intro b hb
    simpa using (List.mem_filter.mp hb).2
  · intro a ha b hb
    have hlow : a.1 < id := by simpa using (List.mem_filter.mp ha).2
    rcases List.mem_cons.mp hb with rfl | hb
    · exact hlow
    · have hhigh : id < b.1 := by simpa using (List.mem_filter.mp hb).2
      omega

/-- The table with a row at a rowid. -/
def insertAt (table : Table ρ) (id : Int) (row : ρ) : Table ρ where
  rows := table.rows.filter (fun a => a.1 < id) ++ (id, row) :: table.rows.filter (fun a => id < a.1)
  sorted := sorted_insert table.sorted id row

/-- The table with a new row, and the rowid of this. -/
def insert (picker : Picker) (table : Table ρ) (row : ρ) : Option (Int × Table ρ) :=
  (table.nextId picker).map fun id => (id, table.insertAt id row)

/-- The row at a rowid. -/
def find (table : Table ρ) (id : Int) : Option ρ :=
  (table.rows.find? fun a => a.1 = id).map Prod.snd

variable {table table' : Table ρ} {picker : Picker} {row : ρ} {id : Int}

theorem lt_of_mem_of_getLast {last : Int × ρ} (h : table.rows.getLast? = some last) {a : Int × ρ}
    (ha : a ∈ table.rows) : a.1 ≤ last.1 := by
  obtain ⟨front, hfront⟩ := List.getLast?_eq_some_iff.mp h
  have hsorted := table.sorted
  rw [hfront, List.pairwise_append] at hsorted
  rw [hfront] at ha
  rcases List.mem_append.mp ha with ha | ha
  · have hlt := hsorted.2.2 a ha last (List.mem_singleton_self _)
    omega
  · exact Int.le_of_eq (congrArg Prod.fst (List.mem_singleton.mp ha))

theorem rows_insertAt (table : Table ρ) (id : Int) (row : ρ) :
    (table.insertAt id row).rows = table.rows.filter (fun a => a.1 < id) ++
      (id, row) :: table.rows.filter (fun a => id < a.1) := rfl

/-- The next rowid is none of those in use. -/
theorem nextId_fresh (h : table.nextId picker = some id) : ∀ a ∈ table.rows, a.1 ≠ id := by
  unfold nextId at h
  cases hlast : table.rows.getLast? with
  | none =>
    rw [List.getLast?_eq_none_iff.mp hlast]
    nofun
  | some last =>
    rw [hlast] at h
    dsimp only at h
    intro a ha
    have hle := lt_of_mem_of_getLast hlast ha
    split at h
    · have hid := Option.some.inj h
      omega
    · have hfresh := (picker.fresh _ _ h).2.2
      rintro rfl
      exact hfresh (List.mem_map_of_mem ha)

theorem mem_insertAt (hfresh : ∀ a ∈ table.rows, a.1 ≠ id) {a : Int × ρ} :
    a ∈ (table.insertAt id row).rows ↔ a = (id, row) ∨ a ∈ table.rows := by
  rw [rows_insertAt, List.mem_append, List.mem_cons, List.mem_filter, List.mem_filter,
    decide_eq_true_eq, decide_eq_true_eq]
  constructor
  · rintro (⟨ha, _⟩ | rfl | ⟨ha, _⟩)
    · exact .inr ha
    · exact .inl rfl
    · exact .inr ha
  · rintro (rfl | ha)
    · exact .inr (.inl rfl)
    · have hne := hfresh a ha
      rcases Int.lt_or_gt_of_ne hne with hlow | hhigh
      · exact .inl ⟨ha, hlow⟩
      · exact .inr (.inr ⟨ha, hhigh⟩)

/-- A new row leaves the others as they are. -/
theorem perm_insertAt (hfresh : ∀ a ∈ table.rows, a.1 ≠ id) :
    (table.insertAt id row).rows.Perm ((id, row) :: table.rows) := by
  have hhigh : table.rows.filter (fun a => id < a.1) =
      table.rows.filter (fun a => !decide (a.1 < id)) := by
    refine List.filter_congr fun a ha => ?_
    have hne := hfresh a ha
    rw [← decide_not, decide_eq_decide]
    omega
  rw [rows_insertAt, hhigh]
  exact List.perm_middle.trans ((List.filter_append_perm _ table.rows).cons _)

theorem insertAt_of_lt (h : ∀ a ∈ table.rows, a.1 < id) :
    (table.insertAt id row).rows = table.rows ++ [(id, row)] := by
  have hlow : table.rows.filter (fun a => a.1 < id) = table.rows :=
    List.filter_eq_self.mpr fun a ha => decide_eq_true (h a ha)
  have hhigh : table.rows.filter (fun a => id < a.1) = [] := by
    refine List.filter_eq_nil_iff.mpr fun a ha => ?_
    have hlt := h a ha
    rw [decide_eq_true_eq]
    omega
  rw [rows_insertAt, hlow, hhigh]

theorem eq_of_mem {a b : Int × ρ} (ha : a ∈ table.rows) (hb : b ∈ table.rows) (h : a.1 = b.1) :
    a = b := by
  have hsorted := table.sorted
  obtain ⟨front, rest, hrows⟩ := List.append_of_mem ha
  rw [hrows] at hb hsorted
  rw [List.pairwise_append, List.pairwise_cons] at hsorted
  obtain ⟨_, ⟨hbehind, _⟩, hbefore⟩ := hsorted
  rcases List.mem_append.mp hb with hb | hb
  · have hlt := hbefore b hb a List.mem_cons_self
    omega
  · rcases List.mem_cons.mp hb with rfl | hb
    · rfl
    · have hlt := hbehind b hb
      omega

theorem find_eq_some_iff : table.find id = some row ↔ (id, row) ∈ table.rows := by
  unfold find
  rw [Option.map_eq_some_iff]
  constructor
  · rintro ⟨a, ha, rfl⟩
    have hid : a.1 = id := by simpa using List.find?_some ha
    rw [← hid]
    exact List.mem_of_find?_eq_some ha
  · intro hmem
    cases hfind : table.rows.find? fun a => decide (a.1 = id) with
    | none =>
      have hne := List.find?_eq_none.mp hfind _ hmem
      simp at hne
    | some a =>
      have hid : a.1 = id := by simpa using List.find?_some hfind
      exact ⟨a, rfl, by rw [eq_of_mem (List.mem_of_find?_eq_some hfind) hmem hid]⟩

/-! ## Numbered tables -/

/-- The rowids are the numbers from one on. -/
def Numbered (table : Table ρ) : Prop :=
  ∀ id, id ∈ table.ids ↔ 1 ≤ id ∧ id ≤ table.rows.length

theorem numbered_empty : Numbered (∅ : Table ρ) := by
  intro id
  constructor
  · nofun
  · rintro ⟨hone, hzero⟩
    rw [rows_empty, List.length_nil] at hzero
    omega

theorem Numbered.nextId (h : table.Numbered) (hid : table.nextId picker = some id) :
    id = table.rows.length + 1 := by
  unfold Table.nextId at hid
  cases hlast : table.rows.getLast? with
  | none =>
    rw [hlast] at hid
    rw [List.getLast?_eq_none_iff.mp hlast]
    exact (Option.some.inj hid).symm
  | some last =>
    have hmem : last ∈ table.rows := List.mem_of_getLast? hlast
    have hpos := List.length_pos_of_mem hmem
    have hbounds := (h last.1).mp (List.mem_map_of_mem hmem)
    -- the largest rowid is the number of rows
    have hlargest : last.1 = table.rows.length := by
      obtain ⟨a, ha, heq⟩ := List.mem_map.mp ((h table.rows.length).mpr ⟨by omega, Int.le_refl _⟩)
      have hle := lt_of_mem_of_getLast hlast ha
      omega
    rw [hlast] at hid
    dsimp only at hid
    split at hid
    · have hnext := Option.some.inj hid
      omega
    · obtain ⟨hpositive, hmax, hfresh⟩ := picker.fresh _ _ hid
      exact absurd ((h id).mpr ⟨by omega, by omega⟩) hfresh

/-- In a numbered table a new row is the last one. -/
theorem Numbered.insert (h : table.Numbered) (hinsert : table.insert picker row = some (id, table')) :
    id = table.rows.length + 1 ∧ table'.rows = table.rows ++ [(id, row)] ∧ table'.Numbered := by
  obtain ⟨next, hnext, heq⟩ := Option.map_eq_some_iff.mp hinsert
  obtain ⟨rfl, rfl⟩ := Prod.mk.inj heq
  have hid := h.nextId hnext
  have hlt : ∀ a ∈ table.rows, a.1 < next := by
    intro a ha
    have hbound := ((h a.1).mp (List.mem_map_of_mem ha)).2
    omega
  have hrows := @insertAt_of_lt _ table row next hlt
  refine ⟨hid, hrows, ?_⟩
  intro other
  have hother := h other
  unfold ids at hother ⊢
  rw [hrows, List.map_append, List.mem_append, hother, List.length_append]
  simp only [List.map_cons, List.map_nil, List.mem_singleton, List.length_singleton]
  push_cast
  omega

theorem Numbered.lt_of_insert (h : table.Numbered)
    (hinsert : table.insert picker row = some (id, table')) : ∀ a ∈ table.rows, a.1 < id := by
  intro a ha
  have hid := (h.insert hinsert).1
  have hbound := ((h a.1).mp (List.mem_map_of_mem ha)).2
  omega

end Table

end RowidTable
