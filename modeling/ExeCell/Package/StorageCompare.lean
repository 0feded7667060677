import ExeCell.Package.ArchivePaths
import ExeCell.Package.Storage

/-!
# Comparing two versions

The loop of `compare` goes through the rows of both versions and keeps the last one of each:
`compare_eq` says so for texts without NUL. The rest follows from it: the comparison is
symmetric, and depends on nothing but these two observations (`compare_symmetric`).
-/

namespace ExeCell.Package.Storage

open RowidTable (Table)

/-! ## The last observation of a version -/

/-- The row of the latest observation of a version. -/
def latest (observations : Table ObservationRow) (name version : Text) :
    Option (Int × ObservationRow) :=
  observations.rows.reverse.find? fun entry =>
    entry.2.name = cString name ∧ entry.2.version = version

section Latest

variable {observations : Table ObservationRow} {events : Table EventRow}
  {name fromVersion toVersion version value : Text} {entry : Int × ObservationRow}

theorem cString_of_nulFree (h : '\x00' ∉ value) : cString value = value :=
  ArchiveAdapter.chars_ofText h

theorem latest_eq_some (h : latest observations name version = some entry) :
    entry ∈ observations.rows ∧ entry.2.name = cString name ∧ entry.2.version = version := by
  have hentry := List.find?_some h
  rw [decide_eq_true_eq] at hentry
  exact ⟨List.mem_reverse.mp (List.mem_of_find?_eq_some h), hentry⟩

/-- The loop keeps the last row with the first version and the last row with another one. -/
theorem foldl_take (entries : List (Int × ObservationRow)) :
    entries.foldl (Sides.take fromVersion) {} =
      { fromSide := ((entries.reverse.find? fun entry =>
          cString entry.2.version = fromVersion).map sideOf).getD {}
        toSide := ((entries.reverse.find? fun entry =>
          cString entry.2.version ≠ fromVersion).map sideOf).getD {}
        baseline := ((entries.reverse.find? fun entry =>
          cString entry.2.version = fromVersion).map fun entry =>
            decide (entry.2.baseline ≠ 0)).getD false } := by
  induction entries using List.reverseRecOn with
  | nil => rfl
  | append_singleton entries entry ih =>
    rw [List.foldl_append, ih, List.foldl_cons, List.foldl_nil, List.reverse_append,
      List.reverse_singleton, List.singleton_append, List.find?_cons, List.find?_cons, Sides.take]
    by_cases hversion : cString entry.2.version = fromVersion
    · simp [hversion]
    · simp [hversion]

/-- The last of the selected rows with a property is the latest one of a version, when the
property tells this version. -/
theorem find_selected (hfrom : '\x00' ∉ fromVersion) (hto : '\x00' ∉ toVersion) {p : Text → Bool}
    (hp : ∀ version, (version = fromVersion ∨ version = toVersion) ∧ p (cString version) = true ↔
      version = value) :
    ((selected observations name fromVersion toVersion).reverse.find? fun entry =>
      p (cString entry.2.version)) = latest observations name value := by
  rw [selected, ← List.filter_reverse, List.find?_filter, latest]
  congr 1
  funext entry
  have hentry := hp entry.2.version
  rw [cString_of_nulFree hfrom, cString_of_nulFree hto, Bool.eq_iff_iff]
  simp only [Bool.and_eq_true, Bool.or_eq_true, decide_eq_true_eq, and_assoc, hentry]

/-- `compare` with the latest observations of the two versions. -/
theorem compare_eq (observations : Table ObservationRow) (events : Table EventRow) (name : Text)
    (hfrom : '\x00' ∉ fromVersion) (hto : '\x00' ∉ toVersion) :
    compare observations events name fromVersion toVersion =
      match latest observations name fromVersion,
        if fromVersion = toVersion then none else latest observations name toVersion with
      | some a, some b =>
        if a.1 = 0 ∨ b.1 = 0 then { compared := false }
        else deltaOf events (sideOf a) (sideOf b) (decide (a.2.baseline ≠ 0))
      | _, _ => { compared := false } := by
  have hfirst : ((selected observations name fromVersion toVersion).reverse.find? fun entry =>
      decide (cString entry.2.version = fromVersion)) = latest observations name fromVersion := by
    refine find_selected (p := fun version => decide (version = fromVersion)) hfrom hto ?_
    intro version
    rw [decide_eq_true_eq]
    constructor
    · rintro ⟨rfl | rfl, heq⟩
      · rfl
      · rw [cString_of_nulFree hto] at heq
        exact heq
    · rintro rfl
      exact ⟨.inl rfl, cString_of_nulFree hfrom⟩
  have hsecond : ((selected observations name fromVersion toVersion).reverse.find? fun entry =>
      decide (cString entry.2.version ≠ fromVersion)) =
        if fromVersion = toVersion then none else latest observations name toVersion := by
    by_cases hsame : fromVersion = toVersion
    · rw [if_pos hsame, List.find?_eq_none]
      intro entry hentry
      rw [List.mem_reverse, selected, List.mem_filter, cString_of_nulFree hfrom,
        cString_of_nulFree hto, ← hsame, Bool.and_eq_true, Bool.or_self, decide_eq_true_eq,
        decide_eq_true_eq] at hentry
      rw [decide_eq_true_eq, not_not, hentry.2.2, cString_of_nulFree hfrom]
    · rw [if_neg hsame]
      refine find_selected (p := fun version => decide (version ≠ fromVersion)) hfrom hto ?_
      intro version
      rw [decide_eq_true_eq]
      constructor
      · rintro ⟨rfl | rfl, hne⟩
        · exact absurd (cString_of_nulFree hfrom) hne
        · rfl
      · rintro rfl
        rw [cString_of_nulFree hto]
        exact ⟨.inr rfl, Ne.symm hsame⟩
  rw [compare, foldl_take, hfirst, hsecond]
  dsimp only
  cases latest observations name fromVersion with
  | none => rw [if_pos (.inl rfl)]
  | some a =>
    cases if fromVersion = toVersion then none else latest observations name toVersion with
    | none => rw [if_pos (.inr rfl)]
    | some b => rfl

/-- Two different versions have these latest observations, and neither has the id zero. -/
structure Comparable (observations : Table ObservationRow) (name fromVersion toVersion : Text)
    (a b : Int × ObservationRow) : Prop where
  differs : fromVersion ≠ toVersion
  first : latest observations name fromVersion = some a
  second : latest observations name toVersion = some b
  firstId : a.1 ≠ 0
  secondId : b.1 ≠ 0

variable {a b : Int × ObservationRow}

theorem Comparable.swap (h : Comparable observations name fromVersion toVersion a b) :
    Comparable observations name toVersion fromVersion b a :=
  ⟨h.differs.symm, h.second, h.first, h.secondId, h.firstId⟩

theorem Comparable.compare_eq (h : Comparable observations name fromVersion toVersion a b)
    (events : Table EventRow) (hfrom : '\x00' ∉ fromVersion) (hto : '\x00' ∉ toVersion) :
    compare observations events name fromVersion toVersion =
      deltaOf events (sideOf a) (sideOf b) (decide (a.2.baseline ≠ 0)) := by
  have hids : ¬(a.1 = 0 ∨ b.1 = 0) := not_or.mpr ⟨h.firstId, h.secondId⟩
  rw [Storage.compare_eq observations events name hfrom hto, if_neg h.differs, h.first, h.second]
  exact if_neg hids

theorem compare_of_not_comparable
    (h : ∀ a b, ¬Comparable observations name fromVersion toVersion a b) (events : Table EventRow)
    (hfrom : '\x00' ∉ fromVersion) (hto : '\x00' ∉ toVersion) :
    compare observations events name fromVersion toVersion = { compared := false } := by
  rw [compare_eq observations events name hfrom hto]
  by_cases hsame : fromVersion = toVersion
  · rw [if_pos hsame]
    cases latest observations name fromVersion <;> rfl
  · rw [if_neg hsame]
    cases hfirst : latest observations name fromVersion with
    | none => rfl
    | some a =>
      cases hsecond : latest observations name toVersion with
      | none => rfl
      | some b =>
        refine if_pos ?_
        by_contra hids
        rw [not_or] at hids
        exact h a b ⟨hsame, hfirst, hsecond, hids.1, hids.2⟩

end Latest

/-! ## Sets of texts -/

section Sets

variable {set other texts : List Text} {text added : Text}

theorem mem_insertText : text ∈ insertText set added ↔ text = added ∨ text ∈ set := by
  rw [insertText]
  split
  · rename_i hmem
    constructor
    · exact .inr
    · rintro (rfl | htext)
      · exact hmem
      · exact htext
  · exact List.mem_orderedInsert (· ≤ ·)

theorem sorted_insertText (h : set.Pairwise (· < ·)) (added : Text) :
    (insertText set added).Pairwise (· < ·) := by
  rw [insertText]
  split
  · exact h
  · rename_i hnew
    have hle : (set.orderedInsert (· ≤ ·) added).Pairwise (· ≤ ·) :=
      List.Pairwise.orderedInsert added set (h.imp le_of_lt)
    have hnodup : (set.orderedInsert (· ≤ ·) added).Nodup := by
      rw [(List.perm_orderedInsert (· ≤ ·) added set).nodup_iff, List.nodup_cons]
      exact ⟨hnew, h.imp ne_of_lt⟩
    exact (hle.and hnodup).imp fun hboth => lt_of_le_of_ne hboth.1 hboth.2

theorem foldl_insertText (h : set.Pairwise (· < ·)) (texts : List Text) :
    (texts.foldl insertText set).Pairwise (· < ·) ∧
      ∀ text, text ∈ texts.foldl insertText set ↔ text ∈ set ∨ text ∈ texts := by
  induction texts generalizing set with
  | nil => exact ⟨h, by simp⟩
  | cons added texts ih =>
    obtain ⟨hsorted, hmem⟩ := ih (sorted_insertText h added)
    refine ⟨hsorted, fun text => ?_⟩
    rw [List.foldl_cons, hmem, mem_insertText, List.mem_cons, or_assoc, or_left_comm]

end Sets

/-- The texts of the events of an observation. -/
def eventTexts (events : Table EventRow) (id : Int) : List Text :=
  (events.rows.filter fun entry => entry.2.observationId = id).map fun entry => eventText entry.2

section Events

variable {events events' : Table EventRow} {id id' : Int}

theorem sorted_eventSet (events : Table EventRow) (id : Int) :
    (eventSet events id).Pairwise (· < ·) :=
  (foldl_insertText .nil (eventTexts events id)).1

theorem mem_eventSet {text : Text} : text ∈ eventSet events id ↔ text ∈ eventTexts events id := by
  have hmem := (foldl_insertText .nil (eventTexts events id)).2 text
  rw [eventSet, ← eventTexts, hmem]
  simp

theorem eventSet_congr (h : ∀ text, text ∈ eventTexts events id ↔ text ∈ eventTexts events' id') :
    eventSet events id = eventSet events' id' := by
  refine List.Pairwise.eq_of_mem_iff (sorted_eventSet events id) (sorted_eventSet events' id') ?_
  intro text
  rw [mem_eventSet, mem_eventSet, h]

end Events

/-! ## Symmetry -/

/-- The same comparison the other way round. -/
structure Mirrors (delta delta' : VersionDelta) : Prop where
  compared : delta.compared = delta'.compared
  identityChanged : delta.identityChanged = delta'.identityChanged
  sourceChanged : delta.sourceChanged = delta'.sourceChanged
  dependenciesChanged : delta.dependenciesChanged = delta'.dependenciesChanged
  added : delta.addedEvents = delta'.removedEvents
  removed : delta.removedEvents = delta'.addedEvents

/-- Both lists are sorted, without an element twice, and have nothing in common. -/
structure Tidy (delta : VersionDelta) : Prop where
  added : delta.addedEvents.Pairwise (· < ·)
  removed : delta.removedEvents.Pairwise (· < ·)
  disjoint : ∀ text ∈ delta.addedEvents, text ∉ delta.removedEvents

section Symmetry

variable {observations observations' : Table ObservationRow} {events events' : Table EventRow}
  {first second : Text}

theorem mirrors_deltaOf (events : Table EventRow) (a b : Side) (baseline baseline' : Bool) :
    Mirrors (deltaOf events a b baseline) (deltaOf events b a baseline') := by
  refine ⟨rfl, ?_, ?_, ?_, rfl, rfl⟩
  · simp only [deltaOf, ne_comm]
  · simp only [deltaOf, ne_comm]
  · simp only [deltaOf, ne_comm]

theorem tidy_deltaOf (events : Table EventRow) (a b : Side) (baseline : Bool) :
    Tidy (deltaOf events a b baseline) := by
  refine ⟨(sorted_eventSet _ _).filter _, (sorted_eventSet _ _).filter _, ?_⟩
  intro text hadded hremoved
  have hnot := (List.mem_filter.mp hadded).2
  rw [decide_eq_true_eq] at hnot
  exact hnot (List.mem_filter.mp hremoved).1

/-- The comparison does not depend on the order of the versions, and on nothing but their
latest observations. -/
theorem compare_symmetric (hfirst : '\x00' ∉ first) (hsecond : '\x00' ∉ second)
    (observations : Table ObservationRow) (events : Table EventRow) (name : Text) :
    Mirrors (compare observations events name first second)
        (compare observations events name second first) ∧
      Tidy (compare observations events name first second) ∧
      ∀ observations' events',
        latest observations' name first = latest observations name first →
        latest observations' name second = latest observations name second →
        (∀ version ∈ [first, second], ∀ entry, latest observations name version = some entry →
          ∀ text, text ∈ eventTexts events entry.1 ↔ text ∈ eventTexts events' entry.1) →
        compare observations' events' name first second =
          compare observations events name first second := by
  by_cases hboth : ∃ a b, Comparable observations name first second a b
  · obtain ⟨a, b, hab⟩ := hboth
    rw [hab.compare_eq events hfirst hsecond, hab.swap.compare_eq events hsecond hfirst]
    refine ⟨mirrors_deltaOf _ _ _ _ _, tidy_deltaOf _ _ _ _, ?_⟩
    intro observations' events' hlatest hlatest' hevents
    have hab' : Comparable observations' name first second a b :=
      ⟨hab.differs, hlatest.trans hab.first, hlatest'.trans hab.second, hab.firstId, hab.secondId⟩
    have ha : eventSet events' a.1 = eventSet events a.1 :=
      eventSet_congr fun text => (hevents first (by simp) a hab.first text).symm
    have hb : eventSet events' b.1 = eventSet events b.1 :=
      eventSet_congr fun text => (hevents second (by simp) b hab.second text).symm
    rw [hab'.compare_eq events' hfirst hsecond, deltaOf, deltaOf]
    dsimp only [sideOf]
    rw [ha, hb]
  · have hnone : ∀ a b, ¬Comparable observations name first second a b :=
      fun a b hab => hboth ⟨a, b, hab⟩
    have hnone' : ∀ a b, ¬Comparable observations name second first a b :=
      fun a b hab => hboth ⟨b, a, hab.swap⟩
    rw [compare_of_not_comparable hnone events hfirst hsecond,
      compare_of_not_comparable hnone' events hsecond hfirst]
    refine ⟨⟨rfl, rfl, rfl, rfl, rfl, rfl⟩, ⟨.nil, .nil, nofun⟩, ?_⟩
    intro observations' events' hlatest hlatest' _
    refine compare_of_not_comparable (fun a b hab => ?_) events' hfirst hsecond
    exact hboth ⟨a, b, hab.differs, hlatest ▸ hab.first, hlatest' ▸ hab.second, hab.firstId,
      hab.secondId⟩

/-- Two versions of a package, of which the second has been observed twice. -/
def threeRows : Table ObservationRow where
  rows :=
    [(1, { name := "tool".toList, version := "1".toList, baseline := 1 }),
      (2, { name := "tool".toList, version := "2".toList, baseline := 0 }),
      (3, { name := "tool".toList, version := "2".toList, signature := "signed".toList,
            baseline := 0 })]
  sorted := by decide

/-- One event of the last of them. -/
def oneEvent : Table EventRow where
  rows :=
    [(1, { observationId := 3, category := "network".toList, action := "connect".toList,
           subject := "example.test:443".toList, detail := [], dynamic := 1 })]
  sorted := by decide

theorem compare_symmetric_tool :
    Mirrors (compare threeRows oneEvent "tool".toList "1".toList "2".toList)
        (compare threeRows oneEvent "tool".toList "2".toList "1".toList) ∧
      (compare threeRows oneEvent "tool".toList "1".toList "2".toList).identityChanged = true ∧
      (compare threeRows oneEvent "tool".toList "1".toList "2".toList).addedEvents =
        ["network\x1fconnect\x1fexample.test:443\x1f\x1f1".toList] :=
  ⟨(compare_symmetric (by decide) (by decide) threeRows oneEvent "tool".toList).1,
    by decide +kernel, by decide +kernel⟩

end Symmetry

end ExeCell.Package.Storage
