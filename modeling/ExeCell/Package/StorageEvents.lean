import Mathlib.Data.Finset.Card
import Mathlib.Data.Finset.SDiff
import ExeCell.Package.StorageHistory

/-!
# The events of a comparison

`compare` does not compare events but the texts SQLite makes of them: the fields up to their
first NUL, joined by `char(31)`, and the flag. It counts what was gained and lost as long as
no event of one observation alone is confused with another one (`events_exact_iff`).
-/

namespace ExeCell.Package.Storage

open RowidTable (Table)

/-! ## Differences of images -/

section Images

variable {α β : Type} [DecidableEq α] [DecidableEq β] {f : α → β} {s t : Finset α}

theorem image_sdiff_image_subset : s.image f \ t.image f ⊆ (s \ t).image f := by
  intro y hy
  obtain ⟨hys, hyt⟩ := Finset.mem_sdiff.mp hy
  obtain ⟨x, hx, rfl⟩ := Finset.mem_image.mp hys
  have hnot : x ∉ t := fun hxt => hyt (Finset.mem_image_of_mem f hxt)
  exact Finset.mem_image_of_mem f (Finset.mem_sdiff.mpr ⟨hx, hnot⟩)

/-- The difference of the images has as many elements as the difference, if and only if the
map tells the elements of the difference from each other and from the rest. -/
theorem card_image_sdiff_eq_iff :
    (s.image f \ t.image f).card = (s \ t).card ↔
      ∀ x ∈ s \ t, ∀ y ∈ s ∪ t, f x = f y → x = y := by
  constructor
  · intro hcard x hx y hy hxy
    have himage : s.image f \ t.image f = (s \ t).image f := by
      refine Finset.eq_of_subset_of_card_le image_sdiff_image_subset ?_
      rw [hcard]
      exact Finset.card_image_le
    have hinj : Set.InjOn f (s \ t : Finset α) := by
      rw [← Finset.card_image_iff, ← himage, hcard]
    have hfx : f x ∉ t.image f := by
      have hmem := Finset.mem_image_of_mem f hx
      rw [← himage] at hmem
      exact (Finset.mem_sdiff.mp hmem).2
    have hyt : y ∉ t := by
      intro hyt
      rw [hxy] at hfx
      exact hfx (Finset.mem_image_of_mem f hyt)
    have hys : y ∈ s := (Finset.mem_union.mp hy).resolve_right hyt
    exact hinj hx (Finset.mem_sdiff.mpr ⟨hys, hyt⟩) hxy
  · intro hinj
    have himage : s.image f \ t.image f = (s \ t).image f := by
      refine Finset.Subset.antisymm image_sdiff_image_subset fun y hy => ?_
      obtain ⟨x, hx, rfl⟩ := Finset.mem_image.mp hy
      refine Finset.mem_sdiff.mpr ⟨Finset.mem_image_of_mem f (Finset.mem_sdiff.mp hx).1, ?_⟩
      intro hxt
      obtain ⟨z, hz, hzx⟩ := Finset.mem_image.mp hxt
      have heq := hinj x hx z (Finset.mem_union_right s hz) hzx.symm
      rw [heq] at hx
      exact (Finset.mem_sdiff.mp hx).2 hz
    rw [himage]
    refine Finset.card_image_of_injOn fun x hx y hy hxy => ?_
    exact hinj x hx y (Finset.mem_union_left t (Finset.mem_sdiff.mp hy).1) hxy

end Images

/-! ## The text of an event -/

/-- The fields of an event as they are bound, joined. -/
def Event.joined (event : Event) : Text :=
  [unitSeparator].intercalate
    [cString event.category, cString event.action, cString event.subject, cString event.detail]

/-- Two events are the same to `compare`. -/
def Confused (event event' : Event) : Prop :=
  event.joined = event'.joined ∧ event.dynamic = event'.dynamic

section Texts

variable {event event' : Event} {id id' : Int}

theorem eventText_eventRow (id : Int) (event : Event) :
    eventText (eventRow id event) =
      event.joined ++ unitSeparator :: Text.ofInt (if event.dynamic then 1 else 0) := by
  have hnul : ∀ value, '\x00' ∉ cString value := fun value =>
    (ArchiveAdapter.CString.ofText value).nulFree
  have hdynamic : '\x00' ∉ Text.ofInt (if event.dynamic then 1 else 0) := by
    cases event.dynamic <;> decide
  have hseparator : '\x00' ≠ unitSeparator := by decide
  rw [eventText, cString_of_nulFree, Event.joined]
  · simp [eventRow, List.intercalate]
  · simp [eventRow, hnul, hdynamic, hseparator]

theorem eventText_eq_iff :
    eventText (eventRow id event) = eventText (eventRow id' event') ↔ Confused event event' := by
  rw [eventText_eventRow, eventText_eventRow, Confused]
  constructor
  · intro h
    have hlength : ∀ dynamic : Bool,
        (unitSeparator :: Text.ofInt (if dynamic then 1 else 0)).length = 2 := by decide
    obtain ⟨hjoined, hlast⟩ := List.append_inj' h ((hlength _).trans (hlength _).symm)
    refine ⟨hjoined, ?_⟩
    generalize event.dynamic = dynamic at hlast ⊢
    generalize event'.dynamic = dynamic' at hlast ⊢
    revert dynamic dynamic'
    decide
  · rintro ⟨hjoined, hdynamic⟩
    rw [hjoined, hdynamic]

end Texts

/-! ## What was gained and lost -/

/-- The comparison has an event for every one that was gained or lost. -/
structure EventsExact (delta : VersionDelta) (before after : List Event) : Prop where
  added_empty : delta.addedEvents = [] ↔ ∀ event ∈ after, event ∈ before
  removed_empty : delta.removedEvents = [] ↔ ∀ event ∈ before, event ∈ after
  added_count : delta.addedEvents.length = (after.toFinset \ before.toFinset).card
  removed_count : delta.removedEvents.length = (before.toFinset \ after.toFinset).card

/-- No event of one observation alone is confused with another one. -/
def KeptApart (before after : List Event) : Prop :=
  ∀ event event', event ∈ before ++ after → event' ∈ before ++ after →
    ¬(event ∈ before ∧ event ∈ after) → Confused event event' → event = event'

section Events

variable {sqlite : Sqlite} {tables : Tables} {log : List Stored}
  {observations : Table ObservationRow} {rows : Table EventRow} {stored a b : Stored}
  {name first second : Text}

/-- The rows under an id are those of its entry in the log. -/
theorem Recorded.mem_eventTexts (h : Recorded tables log observations rows) (hstored : stored ∈ log)
    (text : Text) :
    text ∈ eventTexts rows stored.id ↔
      ∃ event ∈ stored.events, eventText (eventRow 0 event) = text := by
  have hvalue : ∀ row, row ∈ rows.rows.map Prod.snd ↔
      ∃ stored ∈ log, ∃ event ∈ stored.events, eventRow stored.id event = row := by
    intro row
    simp only [h.values, List.mem_flatMap, List.mem_map]
  have htext : ∀ event, eventText (eventRow stored.id event) = eventText (eventRow 0 event) :=
    fun event => eventText_eq_iff.mpr ⟨rfl, rfl⟩
  constructor
  · intro hmem
    obtain ⟨entry, hentry, rfl⟩ := List.mem_map.mp hmem
    obtain ⟨hrow, hid⟩ := List.mem_filter.mp hentry
    rw [decide_eq_true_eq] at hid
    obtain ⟨stored', hstored', event, hevent, heq⟩ := (hvalue entry.2).mp (List.mem_map_of_mem hrow)
    rw [← heq] at hid
    obtain rfl := h.eq_of_id hstored' hstored hid
    rw [← heq, htext]
    exact ⟨event, hevent, rfl⟩
  · rintro ⟨event, hevent, rfl⟩
    obtain ⟨entry, hentry, heq⟩ := List.mem_map.mp
      ((hvalue (eventRow stored.id event)).mpr ⟨stored, hstored, event, hevent, rfl⟩)
    refine List.mem_map.mpr ⟨entry, List.mem_filter.mpr ⟨hentry, ?_⟩, ?_⟩
    · rw [heq]
      exact decide_eq_true rfl
    · rw [heq, htext]

theorem Recorded.toFinset_eventSet (h : Recorded tables log observations rows)
    (hstored : stored ∈ log) :
    (eventSet rows stored.id).toFinset =
      stored.events.toFinset.image fun event => eventText (eventRow 0 event) := by
  refine Finset.ext fun text => ?_
  rw [List.mem_toFinset, mem_eventSet, h.mem_eventTexts hstored, Finset.mem_image]
  simp only [List.mem_toFinset]

/-- The number of texts that are in the one set and not in the other. -/
theorem length_setDifference {set other : List Text} (h : set.Pairwise (· < ·)) :
    (setDifference set other).length = (set.toFinset \ other.toFinset).card := by
  have hnodup : (setDifference set other).Nodup := (h.filter _).imp ne_of_lt
  rw [← List.toFinset_card_of_nodup hnodup, setDifference, List.toFinset_filter]
  congr 1
  refine Finset.ext fun text => ?_
  simp

/-- The difference of the sets has an element for every event in the one list only, if and
only if none of these is confused with another event. -/
theorem Recorded.length_eq_iff (h : Recorded tables log observations rows) (ha : a ∈ log)
    (hb : b ∈ log) :
    (setDifference (eventSet rows b.id) (eventSet rows a.id)).length =
        (b.events.toFinset \ a.events.toFinset).card ↔
      ∀ event ∈ b.events, event ∉ a.events → ∀ event', event' ∈ b.events ∨ event' ∈ a.events →
        Confused event event' → event = event' := by
  rw [length_setDifference (sorted_eventSet rows b.id), h.toFinset_eventSet ha,
    h.toFinset_eventSet hb, card_image_sdiff_eq_iff]
  simp only [Finset.mem_sdiff, Finset.mem_union, List.mem_toFinset, eventText_eq_iff, and_imp]

theorem eq_nil_iff_of_length {texts : List Text} {events others : List Event}
    (h : texts.length = (events.toFinset \ others.toFinset).card) :
    texts = [] ↔ ∀ event ∈ events, event ∈ others := by
  rw [← List.length_eq_zero_iff, h, Finset.card_eq_zero, Finset.sdiff_eq_empty_iff_subset]
  simp only [Finset.subset_iff, List.mem_toFinset]

theorem keptApart_iff {before after : List Event} :
    KeptApart before after ↔
      (∀ event ∈ after, event ∉ before → ∀ event', event' ∈ after ∨ event' ∈ before →
        Confused event event' → event = event') ∧
      ∀ event ∈ before, event ∉ after → ∀ event', event' ∈ before ∨ event' ∈ after →
        Confused event event' → event = event' := by
  constructor
  · intro h
    constructor
    · intro event hafter hbefore event' hmem
      refine h event event' (List.mem_append_right _ hafter) (List.mem_append.mpr hmem.symm) ?_
      exact fun hboth => hbefore hboth.1
    · intro event hbefore hafter event' hmem
      refine h event event' (List.mem_append_left _ hbefore) (List.mem_append.mpr hmem) ?_
      exact fun hboth => hafter hboth.2
  · rintro ⟨hadded, hremoved⟩ event event' hmem hmem' hone
    rw [List.mem_append] at hmem'
    rcases List.mem_append.mp hmem with hbefore | hafter
    · exact hremoved event hbefore (fun hafter => hone ⟨hbefore, hafter⟩) event' hmem'
    · exact hadded event hafter (fun hbefore => hone ⟨hbefore, hafter⟩) event' hmem'.symm

theorem Recorded.eventsExact_iff (h : Recorded tables log observations rows)
    (hdiffers : first ≠ second) (hfirst : lastStored log (cString name) first = some a)
    (hsecond : lastStored log (cString name) second = some b) :
    EventsExact (compare observations rows name first second) a.events b.events ↔
      KeptApart a.events b.events := by
  obtain ⟨hmem, _, hversion⟩ := lastStored_eq_some hfirst
  obtain ⟨hmem', _, hversion'⟩ := lastStored_eq_some hsecond
  obtain ⟨row, row', _, _, hcomparable⟩ := h.comparable hdiffers hfirst hsecond
  have hnul : '\x00' ∉ first := hversion ▸ (ArchiveAdapter.CString.ofText _).nulFree
  have hnul' : '\x00' ∉ second := hversion' ▸ (ArchiveAdapter.CString.ofText _).nulFree
  rw [hcomparable.compare_eq rows hnul hnul', keptApart_iff, ← h.length_eq_iff hmem hmem',
    ← h.length_eq_iff hmem' hmem]
  constructor
  · intro hexact
    exact ⟨hexact.added_count, hexact.removed_count⟩
  · rintro ⟨hadded, hremoved⟩
    exact ⟨eq_nil_iff_of_length hadded, eq_nil_iff_of_length hremoved, hadded, hremoved⟩

/-- The comparison of the latest observations of two versions is exact, if and only if no event
of one of them alone is confused with another one. -/
theorem events_exact_iff (h : History sqlite tables log) (hdiffers : first ≠ second)
    (hfirst : lastStored log (cString name) first = some a)
    (hsecond : lastStored log (cString name) second = some b) :
    ∃ observations rows, tables.observations = some observations ∧ tables.events = some rows ∧
      (EventsExact (compare observations rows name first second) a.events b.events ↔
        KeptApart a.events b.events) := by
  obtain ⟨observations, rows, hrecorded⟩ := h.recorded
  exact ⟨observations, rows, hrecorded.observations_eq, hrecorded.events_eq,
    hrecorded.eventsExact_iff hdiffers hfirst hsecond⟩

/-- Between observations with the same events nothing is gained or lost. -/
theorem compare_same_events (h : History sqlite tables log) (hdiffers : first ≠ second)
    (hfirst : lastStored log (cString name) first = some a)
    (hsecond : lastStored log (cString name) second = some b) (hsame : a.events = b.events) :
    ∃ observations rows, tables.observations = some observations ∧ tables.events = some rows ∧
      (compare observations rows name first second).addedEvents = [] ∧
      (compare observations rows name first second).removedEvents = [] := by
  obtain ⟨observations, rows, hrecorded⟩ := h.recorded
  refine ⟨observations, rows, hrecorded.observations_eq, hrecorded.events_eq, ?_⟩
  have hapart : KeptApart a.events b.events := by
    rw [hsame]
    intro event event' hmem _ hone
    have hboth : event ∈ b.events := by simpa using hmem
    exact absurd ⟨hboth, hboth⟩ hone
  have hexact := (hrecorded.eventsExact_iff hdiffers hfirst hsecond).mpr hapart
  rw [hsame] at hexact
  exact ⟨hexact.added_empty.mpr fun _ hevent => hevent,
    hexact.removed_empty.mpr fun _ hevent => hevent⟩

/-! ## Texts that keep events apart -/

/-- The fields come back as they are, and none of them has a separator. -/
def Event.Plain (event : Event) : Prop :=
  ∀ field ∈ [event.category, event.action, event.subject, event.detail],
    '\x00' ∉ field ∧ unitSeparator ∉ field

theorem eq_of_confused {event event' : Event} (h : event.Plain) (h' : event'.Plain)
    (hconfused : Confused event event') : event = event' := by
  obtain ⟨category, action, subject, detail, dynamic⟩ := event
  obtain ⟨category', action', subject', detail', dynamic'⟩ := event'
  simp only [Event.Plain, List.forall_mem_cons] at h h'
  obtain ⟨⟨hcategory, hcategory₁⟩, ⟨haction, haction₁⟩, ⟨hsubject, hsubject₁⟩, hdetail, _⟩ := h
  obtain ⟨⟨hcategory', hcategory₁'⟩, ⟨haction', haction₁'⟩, ⟨hsubject', hsubject₁'⟩,
    hdetail', _⟩ := h'
  obtain ⟨hjoined, hdynamic⟩ := hconfused
  simp only [Event.joined, cString_of_nulFree, hcategory, haction, hsubject, hdetail, hcategory',
    haction', hsubject', hdetail', not_false_eq_true, List.intercalate, List.intersperse,
    List.flatten_cons, List.flatten_nil, List.append_nil, List.singleton_append] at hjoined
  obtain ⟨heq, hactions⟩ := Search.append_delimiter_inj hcategory₁ hcategory₁' hjoined
  obtain ⟨heq₁, hsubjects⟩ := Search.append_delimiter_inj haction₁ haction₁' hactions
  obtain ⟨heq₂, heq₃⟩ := Search.append_delimiter_inj hsubject₁ hsubject₁' hsubjects
  rw [heq, heq₁, heq₂, heq₃, show dynamic = dynamic' from hdynamic]

/-- Texts without NUL and without separators are all kept apart. -/
theorem keptApart_of_plain {before after : List Event}
    (h : ∀ event ∈ before ++ after, event.Plain) : KeptApart before after :=
  fun event event' hmem hmem' _ hconfused => eq_of_confused (h event hmem) (h event' hmem') hconfused

end Events

/-- What a scan stores of a line of output. -/
def output (line : String) : Event where
  category := "observation".toList
  action := "event".toList
  subject := "tool".toList
  detail := line.toList
  dynamic := true

/-- Two versions with a line of output each. -/
def outputs (line line' : String) : Tables :=
  stored (stored migrated (tool "1") [output line]) (tool "2") [output line']

/-- Another line of output is one event more and one less. -/
theorem events_exact_lines :
    ∃ observations rows, (outputs "old" "new").observations = some observations ∧
      (outputs "old" "new").events = some rows ∧
      EventsExact (compare observations rows "tool".toList "1".toList "2".toList)
        [output "old"] [output "new"] := by
  have hfirst := History.start.stored (tool "1") [output "old"] ⟨1, true⟩ rfl
  have h := hfirst.stored (tool "2") [output "new"] ⟨2, false⟩ rfl
  let log : List Stored := [⟨1, tool "1", [output "old"]⟩, ⟨2, tool "2", [output "new"]⟩]
  have hold : lastStored log (cString "tool".toList) "1".toList =
      some ⟨1, tool "1", [output "old"]⟩ := rfl
  have hnew : lastStored log (cString "tool".toList) "2".toList =
      some ⟨2, tool "2", [output "new"]⟩ := rfl
  obtain ⟨observations, rows, hobservations, hrows, hiff⟩ :=
    events_exact_iff h (by decide) hold hnew
  refine ⟨observations, rows, hobservations, hrows, hiff.mpr (keptApart_of_plain ?_)⟩
  simp only [Event.Plain]
  decide

/-- Output that goes on behind a NUL is the same event. -/
theorem not_eventsExact_nul :
    ∃ tables observations rows,
      History plainSqlite tables
        [⟨1, tool "1", [output "out"]⟩, ⟨2, tool "2", [output "out\x00more"]⟩] ∧
      tables.observations = some observations ∧ tables.events = some rows ∧
      ¬EventsExact (compare observations rows "tool".toList "1".toList "2".toList)
        [output "out"] [output "out\x00more"] := by
  have hfirst := History.start.stored (tool "1") [output "out"] ⟨1, true⟩ rfl
  have h := hfirst.stored (tool "2") [output "out\x00more"] ⟨2, false⟩ rfl
  refine ⟨_, _, _, h, rfl, rfl, fun hexact => ?_⟩
  have hadded := hexact.added_empty.mp (by decide +kernel)
  exact absurd hadded (by decide)

end ExeCell.Package.Storage
