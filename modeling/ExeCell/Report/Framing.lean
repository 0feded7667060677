import ExeCell.Report.JsonText

/-!
# The array of the JSON reporter

The opening bracket is written by the first `report`, the closing one by the first
`finish`, the destructor at the latest. `framed_iff` says when what is written is an array
with one object for each event: not when no event was reported, as the closing bracket
then stands alone, and not when the literal of some text reads as nothing.
-/

namespace ExeCell

namespace Payload

/-- The texts that are written. -/
def texts (payload : Payload) : List Text :=
  payload.path?.toList ++ payload.endpoint?.toList ++
    (payload.violation?.toList.flatMap fun (rule, resource) => [rule, resource]) ++
    payload.failure?.toList.map Prod.fst

end Payload

namespace Report

open Json

/-! ## The object of an event -/

def textField (key : String) (value : Text) : Field :=
  ⟨key.toList, writeJsonString value, (readBack value).map .string⟩

def natField (key : String) (value : Nat) : Field :=
  ⟨key.toList, Text.ofNat value, some (.number (Text.ofNat value))⟩

def intField (key : String) (value : Int) : Field :=
  ⟨key.toList, Text.ofInt value, some (.number (Text.ofInt value))⟩

def boolField (key : String) (value : Bool) : Field :=
  ⟨key.toList, Text.ofBool value, some (.bool value)⟩

/-- The fields that depend on the alternative. -/
def payloadFields (payload : Payload) : List Field :=
  payload.path?.toList.map (textField "path") ++
    payload.bytes?.toList.map (natField "bytes") ++
    payload.fd?.toList.map (intField "fd") ++
    payload.mode?.toList.map (natField "mode") ++
    payload.endpoint?.toList.map (textField "endpoint") ++
    (payload.violation?.toList.flatMap fun (rule, resource) =>
      [textField "rule" rule, textField "resource" resource]) ++
    (payload.failure?.toList.flatMap fun (syscall, error) =>
      [textField "syscall" syscall, intField "error" error]) ++
    (payload.ending?.toList.flatMap fun (status, signaled) =>
      [intField "status" status, boolField "signaled" signaled]) ++
    payload.parentPid?.toList.map (intField "parent_pid")

def eventFields (event : Event) : List Field :=
  natField "schema_version" 1 :: textField "type" (eventType event.payload) ::
    intField "pid" event.context.pid :: natField "sequence" event.context.sequence ::
    payloadFields event.payload

/-- An object with a comma before each field but the first. -/
theorem objectText_cons (field : Field) (fields : List Field) :
    objectText (field :: fields) =
      '\x7b' :: field.member ++ (fields.flatMap fun field => ',' :: field.member) ++ ['\x7d'] := by
  have hcommas : commas ((field :: fields).map Field.member) =
      field.member ++ fields.flatMap fun field => ',' :: field.member := by
    induction fields generalizing field with
    | nil => simp
    | cons next fields ih =>
      rw [List.map_cons, List.map_cons, commas_cons_cons, ← List.map_cons, ih next]
      simp
  rw [objectText, hcommas]
  simp

theorem eventJson_eq (event : Event) : eventJson event = objectText (eventFields event) := by
  have hone : ∀ {α : Type} (value : Option α) (f : α → Field),
      (value.toList.map f).flatMap (fun field => ',' :: field.member) =
        field value fun a => ',' :: (f a).member := by
    intro α value f
    cases value <;> simp [field]
  have htwo : ∀ {α : Type} (value : Option α) (f : α → List Field),
      (value.toList.flatMap f).flatMap (fun field => ',' :: field.member) =
        field value fun a => (f a).flatMap fun field => ',' :: field.member := by
    intro α value f
    cases value <;> simp [field]
  obtain ⟨payload, context⟩ := event
  have hfields : eventFields ⟨payload, context⟩ =
      natField "schema_version" 1 :: (textField "type" (eventType payload) ::
        intField "pid" context.pid :: natField "sequence" context.sequence ::
        payloadFields payload) := rfl
  rw [hfields, objectText_cons]
  unfold eventJson payloadFields
  simp only [List.flatMap_cons, List.flatMap_append, hone, htwo, List.flatMap_nil, List.append_assoc,
    List.append_nil, List.cons_append]
  rfl

/-! ## What the object reads as -/

theorem good_textField {key : String} (h : Plain key.toList) (value : Text) :
    (textField key value).Good := ⟨h, piece_writeJsonString value⟩

theorem good_natField {key : String} (h : Plain key.toList) (value : Nat) :
    (natField key value).Good := ⟨h, piece_nat value⟩

theorem good_intField {key : String} (h : Plain key.toList) (value : Int) :
    (intField key value).Good := ⟨h, piece_int value⟩

theorem good_boolField {key : String} (h : Plain key.toList) (value : Bool) :
    (boolField key value).Good := ⟨h, piece_bool value⟩

/-- What holds of every field with one of these keys holds of the fields of every event. -/
theorem forall_eventFields {P : Field → Prop}
    (htext : ∀ key ∈ ["type", "path", "endpoint", "rule", "resource", "syscall"],
      ∀ value, P (textField key value))
    (hnat : ∀ key ∈ ["schema_version", "sequence", "bytes", "mode"], ∀ value, P (natField key value))
    (hint : ∀ key ∈ ["pid", "fd", "error", "status", "parent_pid"], ∀ value, P (intField key value))
    (hbool : ∀ key ∈ ["signaled"], ∀ value, P (boolField key value)) (event : Event) :
    ∀ f ∈ eventFields event, P f := by
  intro f hf
  simp only [eventFields, payloadFields, List.mem_cons, List.mem_append, List.mem_map,
    List.mem_flatMap, List.not_mem_nil, or_false] at hf
  rcases hf with rfl | rfl | rfl | rfl | (((((((⟨_, _, rfl⟩ | ⟨_, _, rfl⟩) | ⟨_, _, rfl⟩) |
    ⟨_, _, rfl⟩) | ⟨_, _, rfl⟩) | ⟨_, _, rfl | rfl⟩) | ⟨_, _, rfl | rfl⟩) | ⟨_, _, rfl | rfl⟩) |
    ⟨_, _, rfl⟩
  · exact hnat _ (by decide) _
  · exact htext _ (by decide) _
  · exact hint _ (by decide) _
  · exact hnat _ (by decide) _
  · exact htext _ (by decide) _
  · exact hnat _ (by decide) _
  · exact hint _ (by decide) _
  · exact hnat _ (by decide) _
  · exact htext _ (by decide) _
  · exact htext _ (by decide) _
  · exact htext _ (by decide) _
  · exact htext _ (by decide) _
  · exact hint _ (by decide) _
  · exact hint _ (by decide) _
  · exact hbool _ (by decide) _
  · exact hint _ (by decide) _

theorem good_eventFields (event : Event) : ∀ f ∈ eventFields event, f.Good := by
  have htext : ∀ key ∈ ["type", "path", "endpoint", "rule", "resource", "syscall"],
      Plain key.toList := by decide
  have hnat : ∀ key ∈ ["schema_version", "sequence", "bytes", "mode"], Plain key.toList := by decide
  have hint : ∀ key ∈ ["pid", "fd", "error", "status", "parent_pid"], Plain key.toList := by decide
  have hbool : ∀ key ∈ ["signaled"], Plain key.toList := by decide
  exact forall_eventFields (fun key hkey => good_textField (htext key hkey))
    (fun key hkey => good_natField (hnat key hkey)) (fun key hkey => good_intField (hint key hkey))
    (fun key hkey => good_boolField (hbool key hkey)) event

/-- The value of the object of an event. -/
def eventValue (event : Event) : Option Value := objectValue (eventFields event)

theorem piece_eventJson (event : Event) : Piece (eventJson event) (eventValue event) := by
  rw [eventJson_eq]
  exact piece_object (List.cons_ne_nil _ _) (good_eventFields event)

theorem readBack_eventType (payload : Payload) : (readBack (eventType payload)).isSome := by
  have hplain : ∀ c ∈ eventType payload, shortControl c = false := by
    cases payload <;> dsimp only [eventType] <;> decide
  rw [(readBack_eq_units_iff _).mpr hplain]
  rfl

/-- The object reads as something when all texts in it do. -/
theorem eventValue_isSome_iff (event : Event) :
    (eventValue event).isSome ↔ ∀ value ∈ event.payload.texts, Readable value := by
  have htext : ∀ key value, (textField key value).value.isSome ↔ Readable value := by
    intro key value
    rw [← readBack_isSome_iff, textField, Option.isSome_map]
  have htype : (textField "type" (eventType event.payload)).value.isSome := by
    simp [textField, readBack_eventType]
  rw [eventValue, isSome_objectValue]
  simp only [eventFields, List.forall_mem_cons, htype]
  obtain ⟨payload, context⟩ := event
  cases payload <;>
    simp [payloadFields, Payload.texts, Payload.path?, Payload.bytes?, Payload.fd?, Payload.mode?,
      Payload.endpoint?, Payload.violation?, Payload.failure?, Payload.ending?,
      Payload.parentPid?, htext, natField, intField, boolField]

/-! ## The calls -/

namespace JsonReporter

/-- A call of the reporter. -/
inductive Call where
  | report (event : Event)
  | finish
  deriving DecidableEq, Repr

def call (s : JsonReporter) : Call → JsonReporter
  | .report event => s.report event
  | .finish => s.finish

/-- What has been written when the reporter is gone: the destructor calls `finish`. -/
def written (calls : List Call) : Text := (calls.foldl call {}).finish.output

/-- The events reported before the first `finish`. -/
def reported : List Call → List Event
  | [] => []
  | .report event :: calls => event :: reported calls
  | .finish :: _ => []

/-- The output so far, with the closing bracket if it is there. -/
def frame (events : List Event) : Text :=
  match events with
  | [] => []
  | _ :: _ => '[' :: commas (events.map eventJson)

/-- With an event behind the opening bracket, the closing one makes an array. -/
theorem frame_array {events : List Event} (hne : events ≠ []) :
    frame events ++ [']'] = arrayText (events.map eventJson) := by
  cases events with
  | nil => exact absurd rfl hne
  | cons event events => rfl

theorem frame_append (events : List Event) (event : Event) :
    frame (events ++ [event]) =
      frame events ++ (if events = [] then ['['] else [',']) ++ eventJson event := by
  have hcommas : ∀ (texts : List Text) (text : Text), texts ≠ [] →
      commas (texts ++ [text]) = commas texts ++ ',' :: text := by
    intro texts text hne
    induction texts with
    | nil => exact absurd rfl hne
    | cons first texts ih =>
      cases texts with
      | nil => simp
      | cons next texts =>
        rw [List.cons_append, List.cons_append, commas_cons_cons, commas_cons_cons,
          ← List.cons_append, ih (by simp)]
        simp
  cases events with
  | nil => simp [frame]
  | cons first events =>
    have hmap := hcommas ((first :: events).map eventJson) (eventJson event) (by simp)
    rw [if_neg (by simp)]
    simp only [frame, List.cons_append, List.map_cons, List.map_append, List.map_nil] at hmap ⊢
    rw [hmap]
    simp

/-- A reporter that has written these events and is not finished. -/
def Open (s : JsonReporter) (events : List Event) : Prop :=
  s.finished = false ∧ s.first = decide (events = []) ∧ s.output = frame events

theorem open_report {s : JsonReporter} {events : List Event} (h : s.Open events) (event : Event) :
    (s.report event).Open (events ++ [event]) := by
  obtain ⟨hfinished, hfirst, houtput⟩ := h
  rw [report, if_neg (by simp [hfinished])]
  refine ⟨hfinished, by simp, ?_⟩
  rw [frame_append, houtput, hfirst]
  simp only [decide_eq_true_eq]

theorem finish_output {s : JsonReporter} (h : s.finished = false) :
    s.finish.output = s.output ++ [']'] := by
  rw [finish, if_neg (by simp [h])]

/-- After `finish` nothing is written any more. -/
theorem foldl_finished {s : JsonReporter} (h : s.finished = true) (calls : List Call) :
    calls.foldl call s = s := by
  induction calls with
  | nil => rfl
  | cons c calls ih =>
    have hsame : s.call c = s := by
      cases c with
      | report event => exact if_pos h
      | finish => exact if_pos h
    rw [List.foldl_cons, hsame, ih]

theorem finish_finished (s : JsonReporter) : s.finish.finished = true := by
  rw [finish]
  split
  · assumption
  · rfl

theorem foldl_output {s : JsonReporter} {events : List Event} (h : s.Open events)
    (calls : List Call) :
    (calls.foldl call s).finish.output = frame (events ++ reported calls) ++ [']'] := by
  induction calls generalizing s events with
  | nil => rw [List.foldl_nil, finish_output h.1, h.2.2, reported, List.append_nil]
  | cons c calls ih =>
    rw [List.foldl_cons]
    cases c with
    | report event =>
      rw [reported, call, ih (open_report h event), List.append_assoc]
      rfl
    | finish =>
      have hfinished := finish_finished s
      have hagain : s.finish.finish = s.finish := if_pos hfinished
      rw [call, foldl_finished hfinished, hagain, finish_output h.1, h.2.2, reported,
        List.append_nil]

theorem written_eq (calls : List Call) :
    written calls = frame (reported calls) ++ [']'] :=
  @foldl_output {} [] ⟨rfl, rfl, rfl⟩ calls

end JsonReporter

/-! ## The array -/

/-- The text is an array of objects, one for each of the events in their order. -/
def Framed (text : Text) (events : List Event) : Prop :=
  ∃ objects, Document text (.array objects) ∧
    List.Forall₂ (fun event object => Document (eventJson event) object ∧
      ∃ members, object = .object members) events objects

theorem not_wellFormed_bracket : ¬ WellFormed [']'] := by
  rintro ⟨value, rest, hreads, _⟩
  exact not_reads_bracket hreads

/-- The values of the events, each an object. -/
theorem eventValue_object {event : Event} {value : Value} (h : eventValue event = some value) :
    ∃ members, value = .object members := by
  obtain ⟨members, _, rfl⟩ := Option.map_eq_some_iff.mp h
  exact ⟨members, rfl⟩

theorem piece_events (events : List Event) :
    Piece (arrayText (events.map eventJson)) ((all (events.map eventValue)).map .array) := by
  have hparts := @piece_array (events.map fun event => ⟨eventJson event, eventValue event⟩)
    (List.forall_mem_map.mpr fun event _ => piece_eventJson event)
  rw [arrayValue, List.map_map, List.map_map] at hparts
  exact hparts

/-- An array of the objects of some events. -/
theorem framed_array_iff (events : List Event) :
    Framed (arrayText (events.map eventJson)) events ↔
      ∀ event ∈ events, ∀ value ∈ event.payload.texts, Readable value := by
  have hpiece := piece_events events
  have hall : (∀ event ∈ events, ∀ value ∈ event.payload.texts, Readable value) ↔
      (all (events.map eventValue)).isSome := by
    rw [all_isSome, List.forall_mem_map]
    exact forall₂_congr fun event _ => (eventValue_isSome_iff event).symm
  rw [hall, Option.isSome_iff_exists, Framed]
  apply exists_congr
  intro objects
  rw [hpiece.document_iff, Option.map_eq_some_iff]
  constructor
  · rintro ⟨⟨objects', hobjects, heq⟩, _⟩
    cases heq
    exact hobjects
  · intro hobjects
    refine ⟨⟨objects, hobjects, rfl⟩, ?_⟩
    rw [all_eq_some_iff, List.forall₂_map_left_iff] at hobjects
    apply hobjects.imp
    intro event object hvalue
    exact ⟨(piece_eventJson event).document_iff.mpr hvalue, eventValue_object hvalue⟩

/-- What the reporter writes is an array with the object of each reported event exactly
when there is such an event and all their texts read as something. -/
theorem framed_iff (calls : List JsonReporter.Call) :
    Framed (JsonReporter.written calls) (JsonReporter.reported calls) ↔
      JsonReporter.reported calls ≠ [] ∧
        ∀ event ∈ JsonReporter.reported calls, ∀ value ∈ event.payload.texts, Readable value := by
  rw [JsonReporter.written_eq]
  cases hreported : JsonReporter.reported calls with
  | nil =>
    refine iff_of_false ?_ fun h => h.1 rfl
    rintro ⟨objects, hdocument, _⟩
    exact not_wellFormed_bracket ⟨_, hdocument⟩
  | cons event events =>
    have hne := List.cons_ne_nil event events
    rw [and_iff_right hne, JsonReporter.frame_array hne, framed_array_iff]

/-- Without an event only the closing bracket is written. -/
theorem written_empty :
    JsonReporter.written [] = [']'] ∧ ¬ WellFormed (JsonReporter.written []) ∧
      ¬ Framed (JsonReporter.written []) (JsonReporter.reported []) := by
  have hnot : ¬ WellFormed (JsonReporter.written []) := not_wellFormed_bracket
  refine ⟨rfl, hnot, ?_⟩
  rintro ⟨objects, hdocument, _⟩
  exact hnot ⟨_, hdocument⟩

end Report

end ExeCell
