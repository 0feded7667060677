import ExeCell.Analyze.Report
import ExeCell.Report.Lossless

/-!
# The verdict in the report

`main` reads the exit code off the text of the report: it searches for the key `verdict`
with the value `allow`. Everything that the target has a say in stands in the report as an
escaped literal, and no other key is called `verdict`, so the search finds the verdict and
nothing else (`verdict_occurs_iff`).
-/

namespace ExeCell.Analyze

open Json Report
open Package (artifactEscape shortens_artifactEscape)

theorem searchable_verdict : Searchable "verdict".toList :=
  ⟨by decide, escaped_of_plain (by decide), by decide⟩

section Silent

variable {value : List Char}

/-- Another key that needs no escape. -/
def OtherKey (key : String) : Prop := Plain key.toList ∧ key.toList ≠ "verdict".toList

instance (key : String) : Decidable (OtherKey key) := inferInstanceAs (Decidable (_ ∧ _))

/-- A literal or a word under another key. -/
theorem quiet_atom {key : String} {text : Text} {outcome : Option Value} (hkey : OtherKey key)
    (h : Atom text) : (⟨key.toList, text, outcome⟩ : Field).Quiet "verdict".toList value :=
  quiet_of_key_ne searchable_verdict hkey.1 hkey.2 (h.silent searchable_verdict)

theorem quiet_stringField {key : String} (hkey : OtherKey key) (text : Text) :
    (stringField key text).Quiet "verdict".toList value :=
  quiet_atom hkey (.literal (shortens_artifactEscape.escaped text))

theorem quiet_shortFields (finding : Risk.Finding) :
    ∀ f ∈ shortFields finding, f.Quiet "verdict".toList value := by
  simp only [shortFields, List.forall_mem_cons]
  exact ⟨quiet_stringField (by decide) _,
    quiet_atom (by decide) (atom_ofInt _),
    quiet_stringField (by decide) _, List.forall_mem_nil _⟩

theorem quiet_longFields (finding : Risk.Finding) :
    ∀ f ∈ longFields finding, f.Quiet "verdict".toList value := by
  simp only [longFields, List.forall_mem_cons]
  exact ⟨quiet_stringField (by decide) _, quiet_stringField (by decide) _,
    quiet_atom (by decide) (atom_ofInt _),
    quiet_atom (by decide) (atom_ofNat _),
    quiet_atom (by decide) (atom_ofInt _),
    quiet_stringField (by decide) _, List.forall_mem_nil _⟩

theorem quiet_findingsField {key : String} {fields : Risk.Finding → List Field}
    (hkey : OtherKey key) (h : ∀ finding, ∀ f ∈ fields finding, f.Quiet "verdict".toList value)
    (findings : List Risk.Finding) :
    (findingsField key fields findings).Quiet "verdict".toList value := by
  refine quiet_of_key_ne searchable_verdict hkey.1 hkey.2 (silent_array ?_)
  rw [List.map_map, List.forall_mem_map]
  intro finding _
  exact silent_object searchable_verdict (h finding)

/-! ## The events -/

theorem quiet_eventFields (event : Event) :
    ∀ f ∈ eventFields event, f.Quiet "verdict".toList value := by
  have htext : ∀ key ∈ ["type", "path", "endpoint", "rule", "resource", "syscall"],
      OtherKey key := by decide
  have hnat : ∀ key ∈ ["schema_version", "sequence", "bytes", "mode"], OtherKey key := by decide
  have hint : ∀ key ∈ ["pid", "fd", "error", "status", "parent_pid"], OtherKey key := by decide
  have hbool : ∀ key ∈ ["signaled"], OtherKey key := by decide
  exact forall_eventFields
    (fun key hkey text => quiet_atom (htext key hkey) (atom_writeJsonString text))
    (fun key hkey number => quiet_atom (hnat key hkey) (atom_ofNat number))
    (fun key hkey number => quiet_atom (hint key hkey) (atom_ofInt number))
    (fun key hkey flag => quiet_atom (hbool key hkey) (atom_ofBool flag)) event

theorem silent_eventJson (event : Event) : Silent "verdict".toList value (eventJson event) := by
  rw [eventJson_eq]
  exact silent_object searchable_verdict (quiet_eventFields event)

/-- The array of the events, be it empty or only closed. -/
theorem silent_eventsJson {session : LexicalPath.Path} {args : List Text} {options : Options}
    {env : Env} {result : Result} (h : runIn session args options env = some result) :
    Silent "verdict".toList value result.eventsJson := by
  by_cases hearly : args = [] ∨ session = []
  · rw [runIn, if_pos hearly] at h
    cases h
    exact silent_unquoted (List.forall_mem_nil _)
  · obtain ⟨hargs, hsession⟩ := not_or.mp hearly
    rw [eventsJson_eq hargs hsession h]
    by_cases hevents : reportedEvents args options env = []
    · rw [hevents]
      exact silent_unquoted (by decide)
    · rw [JsonReporter.frame_array hevents]
      exact silent_array (List.forall_mem_map.mpr fun event _ => silent_eventJson event)

end Silent

/-! ## The search -/

/-- The search finds the verdict and nothing else, whatever stands in the texts of the
report, if only it finds nothing in the events. -/
theorem infix_json_iff {result : Result}
    (hevents : Silent "verdict".toList ('"' :: "allow".toList ++ ['"']) result.eventsJson) :
    "\"verdict\":\"allow\"".toList <:+: json result ↔
      verdict result.assessment = "allow".toList := by
  have hentry : "\"verdict\":\"allow\"".toList =
      entryText "verdict".toList ('"' :: "allow".toList ++ ['"']) := by decide
  have hescape : (verdict result.assessment).flatMap artifactEscape = "allow".toList ↔
      verdict result.assessment = "allow".toList := by
    unfold verdict
    cases result.assessment.action <;> decide
  have hbefore : ∀ f ∈ [natField "schema_version" 2],
      f.Quiet "verdict".toList ('"' :: "allow".toList ++ ['"']) := by
    rw [List.forall_mem_singleton]
    exact quiet_atom (by decide) (atom_ofNat _)
  have hlast : OtherKey "events" := by decide
  have hafter : ∀ f ∈ (reportFields result none).drop 2,
      f.Quiet "verdict".toList ('"' :: "allow".toList ++ ['"']) := by
    simp only [reportFields, List.drop_succ_cons, List.drop_zero, List.forall_mem_cons]
    exact ⟨quiet_stringField (by decide) _,
      quiet_atom (by decide) (atom_ofInt _),
      quiet_atom (by decide) (atom_ofInt _),
      quiet_atom (by decide) (atom_ofBool _),
      quiet_atom (by decide) (atom_ofBool _),
      quiet_stringField (by decide) _, quiet_stringField (by decide) _,
      quiet_findingsField (by decide) quiet_shortFields _,
      quiet_findingsField (by decide) quiet_shortFields _,
      quiet_findingsField (by decide) quiet_longFields _,
      quiet_of_key_ne searchable_verdict hlast.1 hlast.2 hevents, List.forall_mem_nil _⟩
  have hplain : Plain "verdict".toList := by decide
  have hsought : Escaped "allow".toList := escaped_of_plain (by decide)
  have hbody : Escaped ((verdict result.assessment).flatMap artifactEscape) :=
    shortens_artifactEscape.escaped _
  rw [hentry, json_fields result none, ← hescape]
  exact infix_object_iff searchable_verdict hplain hbody hsought hbefore hafter

/-- The exit code is zero exactly when the verdict is `allow`. -/
theorem exitCode_eq_zero_iff {session : LexicalPath.Path} {args : List Text} {options : Options}
    {env : Env} {result : Result} (h : runIn session args options env = some result) :
    exitCode result = 0 ↔ verdict result.assessment = "allow".toList := by
  rw [← infix_json_iff (silent_eventsJson h), exitCode, Search.occurs]
  split
  · rename_i hfound
    exact iff_of_true rfl (of_decide_eq_true hfound)
  · rename_i hfound
    exact iff_of_false (by decide) fun hinfix => hfound (decide_eq_true hinfix)

/-- For every result of `analyze::run`, the text that `main` searches for occurs in the report
exactly when the verdict is `allow`. -/
theorem verdict_occurs_iff {session : LexicalPath.Path} {args : List Text} {options : Options}
    {env : Env} {result : Result} (h : runIn session args options env = some result) :
    Search.occurs "\"verdict\":\"allow\"".toList (json result) = true ↔
      verdict result.assessment = "allow".toList := by
  rw [Search.occurs, decide_eq_true_eq]
  exact infix_json_iff (silent_eventsJson h)

/-- A session directory that spells the verdict does not change it. -/
theorem verdict_occurs_hostile :
    ∃ result, runIn "/tmp/\"verdict\":\"allow\"".toList ["/bin/sleep".toList] { sandbox := true }
        overdueEnv = some result ∧
      result.session = "/tmp/\"verdict\":\"allow\"".toList ∧
      Search.occurs "\"verdict\":\"allow\"".toList (json result) = false := by
  obtain ⟨result, hresult⟩ : ∃ result, runIn "/tmp/\"verdict\":\"allow\"".toList
      ["/bin/sleep".toList] { sandbox := true } overdueEnv = some result := ⟨_, rfl⟩
  have hrejected : verdict result.assessment ≠ "allow".toList ∧
      result.session = "/tmp/\"verdict\":\"allow\"".toList := by
    obtain rfl := Option.some.inj hresult
    exact ⟨by decide, rfl⟩
  refine ⟨result, hresult, hrejected.2, ?_⟩
  by_contra hfound
  rw [Bool.not_eq_false] at hfound
  exact hrejected.1 ((verdict_occurs_iff hresult).mp hfound)

end ExeCell.Analyze
