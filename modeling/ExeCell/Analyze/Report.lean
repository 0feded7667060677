import ExeCell.Analyze.Reported
import ExeCell.Package.Records

/-!
# The report of an analysis

`json` copies the array of `events.json` into an object, so the report is JSON only if that
array is. The array is one only when something was reported: `analyze_complete_iff` says when
the report is complete and well formed.
-/

namespace ExeCell.Analyze

open Json Report
open Package (quotedField artifactEscape shortens_artifactEscape isRaw_artifactEscape Printed
  isSome_quotedField)

/-! ## The object -/

/-- `string_json` escapes what the reports on packages escape. -/
theorem stringJson_eq (value : Text) :
    stringJson value = '"' :: value.flatMap artifactEscape ++ ['"'] := by
  have hescape : ∀ c : Char, (if c = '"' ∨ c = '\\' then ['\\'] else []) ++
      (if c = '\n' then ['\\', 'n'] else if c = '\r' then ['\\', 'r']
        else if c = '\t' then ['\\', 't'] else [c]) = artifactEscape c := by
    intro c
    rw [artifactEscape]
    split_ifs with hquote hline hreturn htab
    all_goals grind
  rw [stringJson]
  simp only [hescape]

def stringField (key : String) (value : Text) : Field := quotedField artifactEscape key value

theorem text_stringField (key : String) (value : Text) :
    (stringField key value).text = stringJson value := (stringJson_eq value).symm

def shortFields (finding : Risk.Finding) : List Field :=
  [stringField "id" finding.id, intField "weight" finding.weight,
    stringField "explanation" finding.explanation]

def longFields (finding : Risk.Finding) : List Field :=
  [stringField "id" finding.id, stringField "resource" finding.resource,
    intField "pid" finding.pid, natField "sequence" finding.sequence,
    intField "weight" finding.weight, stringField "explanation" finding.explanation]

/-- An array with an object for each finding. -/
def findingsField (key : String) (fields : Risk.Finding → List Field)
    (findings : List Risk.Finding) : Field :=
  let parts := findings.map fun finding =>
    (⟨objectText (fields finding), objectValue (fields finding)⟩ : Part)
  ⟨key.toList, arrayText (parts.map Part.text), arrayValue parts⟩

/-- The fields of the report; the last one is the array of events, whatever it reads as. -/
def reportFields (result : Result) (events : Option Value) : List Field :=
  [natField "schema_version" 2, stringField "verdict" (verdict result.assessment),
    stringField "risk_level" result.assessment.level.text,
    intField "risk_score" result.assessment.score, intField "exit_status" result.exitStatus,
    boolField "timed_out" result.timedOut, boolField "output_limited" result.outputLimited,
    stringField "session" result.session, stringField "attestation" result.attestation,
    findingsField "observed_findings" shortFields result.observedFindings,
    findingsField "policy_findings" shortFields result.policyFindings,
    findingsField "findings" longFields result.assessment.findings,
    ⟨"events".toList, result.eventsJson, events⟩]

theorem shortFinding_eq (finding : Risk.Finding) :
    shortFinding finding = objectText (shortFields finding) := by
  unfold shortFinding shortFields
  simp only [objectText, List.map_cons, List.map_nil, commas_cons_cons, commas_singleton,
    Field.member, text_stringField, List.cons_append, List.append_assoc]
  rfl

theorem longFinding_eq (finding : Risk.Finding) :
    longFinding finding = objectText (longFields finding) := by
  unfold longFinding longFields
  simp only [objectText, List.map_cons, List.map_nil, commas_cons_cons, commas_singleton,
    Field.member, text_stringField, List.cons_append, List.append_assoc]
  rfl

theorem text_findingsField (key : String) {object : Risk.Finding → Text}
    {fields : Risk.Finding → List Field} (h : ∀ finding, object finding = objectText (fields finding))
    (findings : List Risk.Finding) :
    (findingsField key fields findings).text = '[' :: objects findings object ++ [']'] := by
  have htexts : findings.map object = findings.map fun finding => objectText (fields finding) :=
    List.map_congr_left fun finding _ => h finding
  rw [findingsField, objects, htexts, arrayText, List.map_map]
  rfl

set_option maxRecDepth 2000 in
theorem json_fields (result : Result) (events : Option Value) :
    json result = objectText (reportFields result events) := by
  delta json jsonBody reportFields
  simp only [objectText, List.map_cons, List.map_nil, commas_cons_cons, commas_singleton,
    Field.member, text_stringField, text_findingsField _ shortFinding_eq,
    text_findingsField _ longFinding_eq, natField, intField, boolField, List.cons_append,
    List.append_assoc, List.nil_append]
  generalize stringJson (verdict result.assessment) = verdictText
  generalize stringJson result.assessment.level.text = level
  generalize stringJson result.session = session
  generalize stringJson result.attestation = attestation
  generalize objects result.observedFindings shortFinding = observed
  generalize objects result.policyFindings shortFinding = policy
  generalize objects result.assessment.findings longFinding = findings
  generalize Text.ofInt result.assessment.score = score
  generalize Text.ofInt result.exitStatus = status
  generalize Text.ofBool result.timedOut = timedOut
  generalize Text.ofBool result.outputLimited = limited
  rfl

/-! ## When it is JSON -/

/-- The text has no control byte that `string_json` leaves as it is. -/
def Legible (value : Text) : Prop := Printed ['\n', '\r', '\t'] value

instance (value : Text) : Decidable (Legible value) := inferInstanceAs (Decidable (Printed _ value))

theorem good_stringField {key : String} (hkey : Plain key.toList) (value : Text) :
    (stringField key value).Good := ⟨hkey, piece_shortened shortens_artifactEscape value⟩

theorem isSome_stringField {key : String} {value : Text} :
    (stringField key value).value.isSome ↔ Legible value :=
  isSome_quotedField isRaw_artifactEscape key value

theorem good_shortFields (finding : Risk.Finding) : ∀ f ∈ shortFields finding, f.Good := by
  simp only [shortFields, List.forall_mem_cons]
  exact ⟨good_stringField (by decide) _, good_intField (by decide) _,
    good_stringField (by decide) _, List.forall_mem_nil _⟩

theorem good_longFields (finding : Risk.Finding) : ∀ f ∈ longFields finding, f.Good := by
  simp only [longFields, List.forall_mem_cons]
  exact ⟨good_stringField (by decide) _, good_stringField (by decide) _,
    good_intField (by decide) _, good_natField (by decide) _, good_intField (by decide) _,
    good_stringField (by decide) _, List.forall_mem_nil _⟩

section Findings

variable {key : String} {fields : Risk.Finding → List Field} {findings : List Risk.Finding}

theorem good_findingsField (hkey : Plain key.toList) (hne : ∀ finding, fields finding ≠ [])
    (hgood : ∀ finding, ∀ f ∈ fields finding, f.Good) :
    (findingsField key fields findings).Good := by
  refine ⟨hkey, piece_array ?_⟩
  rw [List.forall_mem_map]
  intro finding _
  exact piece_object (hne finding) (hgood finding)

theorem isSome_findingsField :
    (findingsField key fields findings).value.isSome ↔
      ∀ finding ∈ findings, ∀ f ∈ fields finding, f.value.isSome := by
  rw [findingsField, arrayValue, Option.isSome_map, all_isSome, List.map_map, List.forall_mem_map]
  apply forall₂_congr
  intro finding _
  exact isSome_objectValue

end Findings

/-- The texts of a finding. -/
def LegibleFinding (finding : Risk.Finding) : Prop :=
  Legible finding.id ∧ Legible finding.resource ∧ Legible finding.explanation

theorem isSome_shortFields (finding : Risk.Finding) :
    (∀ f ∈ shortFields finding, f.value.isSome) ↔
      Legible finding.id ∧ Legible finding.explanation := by
  simp only [shortFields, List.forall_mem_cons, isSome_stringField, intField, Option.isSome_some,
    true_and, List.not_mem_nil, IsEmpty.forall_iff, implies_true, and_true]

theorem isSome_longFields (finding : Risk.Finding) :
    (∀ f ∈ longFields finding, f.value.isSome) ↔ LegibleFinding finding := by
  simp only [longFields, List.forall_mem_cons, isSome_stringField, intField, natField,
    Option.isSome_some, true_and, List.not_mem_nil, IsEmpty.forall_iff, implies_true, and_true,
    LegibleFinding]

section Report

variable {result : Result} {events : Option Value}

theorem good_reportFields (hevents : Piece result.eventsJson events) :
    ∀ f ∈ reportFields result events, f.Good := by
  have hshort : ∀ finding, shortFields finding ≠ [] := fun _ => List.cons_ne_nil _ _
  have hlong : ∀ finding, longFields finding ≠ [] := fun _ => List.cons_ne_nil _ _
  simp only [reportFields, List.forall_mem_cons]
  exact ⟨good_natField (by decide) _, good_stringField (by decide) _,
    good_stringField (by decide) _, good_intField (by decide) _, good_intField (by decide) _,
    good_boolField (by decide) _, good_boolField (by decide) _, good_stringField (by decide) _,
    good_stringField (by decide) _,
    good_findingsField (by decide) hshort good_shortFields,
    good_findingsField (by decide) hshort good_shortFields,
    good_findingsField (by decide) hlong good_longFields,
    ⟨(by decide : Plain "events".toList), hevents⟩, List.forall_mem_nil _⟩

/-- The report reads as the object of its fields. -/
theorem piece_json (hevents : Piece result.eventsJson events) :
    Piece (json result) (objectValue (reportFields result events)) := by
  rw [json_fields result events]
  exact piece_object (List.cons_ne_nil _ _) (good_reportFields hevents)

theorem legible_verdict (assessment : Risk.Assessment) : Legible (verdict assessment) := by
  unfold verdict
  cases assessment.action <;> decide

theorem legible_level (level : Risk.Level) : Legible level.text := by
  cases level <;> decide

theorem isSome_reportFields :
    (∀ f ∈ reportFields result events, f.value.isSome) ↔
      Legible result.session ∧ Legible result.attestation ∧
        (∀ finding ∈ result.observedFindings,
          Legible finding.id ∧ Legible finding.explanation) ∧
        (∀ finding ∈ result.policyFindings,
          Legible finding.id ∧ Legible finding.explanation) ∧
        (∀ finding ∈ result.assessment.findings, LegibleFinding finding) ∧
        events.isSome := by
  simp only [reportFields, List.forall_mem_cons, isSome_stringField, isSome_findingsField,
    isSome_shortFields, isSome_longFields, legible_verdict, legible_level, intField, natField,
    boolField, Option.isSome_some, true_and, List.not_mem_nil, IsEmpty.forall_iff, implies_true,
    and_true]

end Report

/-! ## The findings -/

section Factors

variable {P : Risk.Factor → Prop} (engine : Risk.Engine)

theorem forall_add_if (c : Prop) [Decidable c] {name : Text} {weight : Int} {explanation : Text}
    (hP : P ⟨name, max 0 weight, explanation⟩) :
    (∀ factor ∈ (if c then engine.add name weight explanation else engine).factors, P factor) ↔
      ∀ factor ∈ engine.factors, P factor := by
  split
  · simp [Risk.Engine.add, hP, or_imp, forall_and]
  · exact Iff.rfl

theorem forall_reject_if (c : Prop) [Decidable c] {name explanation : Text}
    (hP : P ⟨name, 0, explanation⟩) :
    (∀ factor ∈ (if c then engine.reject name explanation else engine).factors, P factor) ↔
      ∀ factor ∈ engine.factors, P factor := by
  split
  · simp [Risk.Engine.reject, hP, or_imp, forall_and]
  · exact Iff.rfl

theorem forall_violations (violations : List Policy.Violation) :
    (∀ factor ∈ (violations.foldl (fun engine violation =>
        Risk.Engine.reject engine "policy_violation".toList
          (violation.rule ++ ": ".toList ++ violation.resource)) engine).factors, P factor) ↔
      (∀ factor ∈ engine.factors, P factor) ∧ ∀ violation ∈ violations,
        P ⟨"policy_violation".toList, 0, violation.rule ++ ": ".toList ++ violation.resource⟩ := by
  induction violations generalizing engine with
  | nil => simp
  | cons violation violations ih =>
    rw [List.foldl_cons, ih, List.forall_mem_cons]
    simp only [Risk.Engine.reject, List.forall_mem_append, List.forall_mem_singleton, and_assoc]

end Factors

theorem legible_append {value more : Text} :
    Legible (value ++ more) ↔ Legible value ∧ Legible more := List.forall_mem_append

theorem legible_ofInt (value : Int) : Legible (Text.ofInt value) := by
  have hdigit : ∀ c : Char, c.isDigit = true → 0x20 ≤ c.toNat := by
    intro c hc
    simp only [Char.isDigit, Bool.and_eq_true, decide_eq_true_eq, UInt32.le_iff_toNat_le] at hc
    have hlow : (48 : UInt32).toNat ≤ c.toNat := hc.1
    have hvalue : (48 : UInt32).toNat = 48 := rfl
    omega
  intro c hc
  rcases Text.of_mem_ofInt hc with h | rfl
  · exact Or.inl (hdigit c h)
  · exact Or.inl (by decide)

/-- The findings are legible when what they say of the violations is. -/
theorem legible_findings (summary : Summary) {violations : List Policy.Violation} (status : Int)
    (timedOut outputLimited : Bool)
    (hrules : ∀ violation ∈ violations, violation.rule ∈ ruleNames) :
    (∀ finding ∈ (assessment summary violations status timedOut outputLimited).findings,
        LegibleFinding finding) ↔ ∀ violation ∈ violations, Legible violation.resource := by
  have hmap : ∀ engine : Risk.Engine, (∀ finding ∈ engine.assess.findings, LegibleFinding finding) ↔
      ∀ factor ∈ engine.factors, Legible factor.name ∧ Legible factor.explanation := by
    intro engine
    have hfindings : engine.assess.findings = engine.factors.map fun factor =>
        { id := factor.name, explanation := factor.explanation, weight := factor.weight } := rfl
    have hnone : Legible [] := List.forall_mem_nil _
    rw [hfindings, List.forall_mem_map]
    simp only [LegibleFinding, hnone, true_and]
  have hstatus : Legible ("target exited with status ".toList ++ Text.ofInt status) :=
    legible_append.mpr ⟨by decide, legible_ofInt status⟩
  have hname : Legible "target_failure".toList := by decide
  rw [assessment, hmap, forall_reject_if _ _ ⟨hname, hstatus⟩, forall_reject_if _ _ (by decide),
    forall_reject_if _ _ (by decide), forall_add_if _ _ (by decide), forall_add_if _ _ (by decide),
    forall_add_if _ _ (by decide), forall_violations, and_iff_right (List.forall_mem_nil _)]
  apply forall₂_congr
  intro violation hmem
  have hnames : ∀ rule ∈ ruleNames, Legible rule := by decide
  simp only [legible_append, hnames _ (hrules violation hmem)]
  exact ⟨fun h => h.2.2, fun h => ⟨by decide, ⟨trivial, by decide⟩, h⟩⟩

/-- What is legible of a run's result. -/
theorem legible_conclude {session : LexicalPath.Path} {measured : Measured} {events : Option Value}
    (hrules : ∀ violation ∈ measured.policy.engine.violations, violation.rule ∈ ruleNames) :
    (∀ f ∈ reportFields (conclude session measured) events, f.value.isSome) ↔
      Legible session ∧ Legible measured.attestation ∧
        (∀ violation ∈ measured.policy.engine.violations, Legible violation.resource) ∧
        events.isSome := by
  have hevidence : ∀ violations finding, (withEvidence violations finding).id = finding.id ∧
      (withEvidence violations finding).explanation = finding.explanation := by
    intro violations finding
    cases violations with
    | nil => exact ⟨rfl, rfl⟩
    | cons violation violations => exact ⟨rfl, rfl⟩
  have hfindings := legible_findings measured.policy.downstream.summary measured.exitStatus
    measured.timedOut measured.outputLimited hrules
  rw [isSome_reportFields, ← hfindings, conclude]
  dsimp only
  constructor
  · rintro ⟨hsession, hattestation, _, _, hall, hevents⟩
    exact ⟨hsession, hattestation, hall, hevents⟩
  · rintro ⟨hsession, hattestation, hall, hevents⟩
    refine ⟨hsession, hattestation, ?_, ?_, hall, hevents⟩
    · intro finding hmem
      obtain ⟨hid, _, hexplanation⟩ := hall finding (List.mem_of_mem_filter hmem)
      exact ⟨hid, hexplanation⟩
    · rw [List.forall_mem_map]
      intro finding hmem
      obtain ⟨hid, _, hexplanation⟩ := hall finding (List.mem_of_mem_filter hmem)
      rw [(hevidence _ finding).1, (hevidence _ finding).2]
      exact ⟨hid, hexplanation⟩

/-! ## The complete report -/

/-- The object that `append_event` is there for. -/
def limitRecord (type : Text) : Value :=
  .object [(units "schema_version".toList, .number ['1']),
    (units "type".toList, .string (units type)), (units "pid".toList, .number ['0']),
    (units "sequence".toList, .number ['0'])]

/-- The records of the limits that were met. -/
def limitRecords (result : Result) : List Value :=
  (if result.timedOut then [limitRecord "analysis.timeout".toList] else []) ++
    if result.outputLimited then [limitRecord "analysis.output_limit".toList] else []

/-- `events.json` is an array with the objects of the events and behind them the records of
the limits, and the report is an object that has this array for its events. -/
def Complete (result : Result) (events : List Event) : Prop :=
  ∃ objects, List.Forall₂ (fun event object => Document (eventJson event) object ∧
      ∃ members, object = .object members) events objects ∧
    Document result.eventsJson (.array (objects ++ limitRecords result)) ∧
    ∃ members, Document (json result) (.object members) ∧
      (units "events".toList, .array (objects ++ limitRecords result)) ∈ members

/-- The tracer gets hold of the target, so that something is reported, and no text spoils
the literal that it is written in. -/
structure Presentable (session : LexicalPath.Path) (args : List Text) (options : Options)
    (env : Env) : Prop where
  target : args ≠ []
  backend : options.sandbox = false
  redirected : env.redirected options.format = true
  attached : env.trace.attached.isSome = true
  session : Legible session
  readable : ∀ event ∈ reportedEvents args options env, ∀ value ∈ event.payload.texts,
    Readable value
  violations : ∀ event ∈ reportedEvents args options env, ∀ rule resource,
    event.payload = .policyViolation rule resource → Legible resource

section Complete

variable {session : LexicalPath.Path} {args : List Text} {options : Options} {env : Env}
  {measured : Measured} {result : Result} {events : List Event}

theorem not_wellFormed_nil : ¬ WellFormed [] := by
  rintro ⟨value, rest, hreads, _⟩
  obtain ⟨c, tail, hskip, _⟩ := reads_begins hreads
  cases hskip

/-- The violations that are legible, read off the events. -/
theorem legible_violations :
    (∀ violation ∈ events.filterMap violationOf, Legible violation.resource) ↔
      ∀ event ∈ events, ∀ rule resource, event.payload = .policyViolation rule resource →
        Legible resource := by
  constructor
  · intro h event hmem rule resource hpayload
    apply h ⟨rule, resource, event.context⟩
    rw [List.mem_filterMap]
    exact ⟨event, hmem, by rw [violationOf, hpayload]⟩
  · intro h violation hmem
    obtain ⟨event, hevent, hviolation⟩ := List.mem_filterMap.mp hmem
    rw [violationOf.eq_def] at hviolation
    split at hviolation
    · rename_i rule resource hpayload
      cases hviolation
      exact h event hevent rule resource hpayload
    · cases hviolation

/-- Where something was reported, the report is complete when the texts allow it. -/
theorem complete_conclude_iff (hne : events ≠ [])
    (hjson : (conclude session measured).eventsJson = JsonReporter.frame events ++ [']'])
    (htime : measured.timedOut = false) (hlimit : measured.outputLimited = false)
    (hlogged : measured.policy.engine.violations = events.filterMap violationOf)
    (hrules : ∀ violation ∈ measured.policy.engine.violations, violation.rule ∈ ruleNames) :
    Complete (conclude session measured) events ↔
      (Legible session ∧ Legible measured.attestation) ∧
        (∀ event ∈ events, ∀ value ∈ event.payload.texts, Readable value) ∧
        ∀ event ∈ events, ∀ rule resource, event.payload = .policyViolation rule resource →
          Legible resource := by
  have hrecords : limitRecords (conclude session measured) = [] := by
    have htime' : (conclude session measured).timedOut = false := htime
    have hlimit' : (conclude session measured).outputLimited = false := hlimit
    rw [limitRecords, htime', hlimit']
    rfl
  have hevents := hjson.trans (JsonReporter.frame_array hne)
  have hpiece := piece_events events
  have hframed := framed_array_iff events
  have hfields := @legible_conclude session measured ((all (events.map eventValue)).map .array) hrules
  have hreport := @piece_json (conclude session measured)
    ((all (events.map eventValue)).map .array) (by rw [hevents]; exact hpiece)
  rw [hlogged, legible_violations] at hfields
  rw [Complete, hrecords]
  simp only [List.append_nil]
  rw [hevents]
  constructor
  · rintro ⟨objects, hobjects, hdocument, members, hread, _⟩
    have hsome := Option.isSome_of_eq_some (hreport.document_iff.mp hread)
    rw [isSome_objectValue, hfields] at hsome
    exact ⟨⟨hsome.1, hsome.2.1⟩, hframed.mp ⟨objects, hdocument, hobjects⟩, hsome.2.2.1⟩
  · rintro ⟨⟨hsession, hattestation⟩, hreadable, hlegible⟩
    obtain ⟨objects, hdocument, hobjects⟩ := hframed.mpr hreadable
    have hvalue := hpiece.document_iff.mp hdocument
    have hsome := hfields.mpr ⟨hsession, hattestation, hlegible, Option.isSome_of_eq_some hvalue⟩
    -- the array is the last field
    exact ⟨objects, hobjects, hdocument,
      exists_member hreport hsome (List.mem_of_getLast? rfl) hvalue⟩

/-- A run that gets a session directory leaves a complete report exactly when there is a
target, it is run under the tracer, which gets hold of it, and no text spoils a literal. -/
theorem analyze_complete_iff (hsession : session ≠ [])
    (h : runIn session args options env = some result) :
    Complete result (reportedEvents args options env) ↔ Presentable session args options env := by
  by_cases hargs : args = []
  · rw [runIn, if_pos (Or.inl hargs)] at h
    cases h
    refine iff_of_false ?_ fun hpresentable => hpresentable.target hargs
    rintro ⟨objects, _, hdocument, _⟩
    exact not_wellFormed_nil ⟨_, hdocument⟩
  have hjson := eventsJson_eq hargs hsession h
  obtain ⟨measured, hmeasured, rfl⟩ := exists_measured hargs hsession h
  have hreports := reportedEvents_ne_nil_iff hargs hmeasured
  by_cases hevents : reportedEvents args options env = []
  · refine iff_of_false ?_ ?_
    · rintro ⟨objects, _, hdocument, _⟩
      rw [hjson, hevents] at hdocument
      exact not_wellFormed_bracket ⟨_, hdocument⟩
    · intro hpresentable
      exact hreports.mpr ⟨hpresentable.backend, hpresentable.redirected, hpresentable.attached⟩
        hevents
  · obtain ⟨htime, hlimit⟩ := measure_limits hargs hmeasured hevents
    obtain ⟨hlogged, hrules⟩ := measure_violations hargs hmeasured
    obtain ⟨hbackend, hredirected, hattached⟩ := hreports.mp hevents
    have hptrace : Legible "backend=ptrace; sandbox=false; policy=observer".toList := by decide
    have hattestation : Legible measured.attestation := by
      rcases measure_cases hargs hmeasured with ⟨_, hnone, _⟩ | ⟨_, _, _, _, _, _, rfl⟩
      · exact absurd hnone hevents
      · exact hptrace
    rw [complete_conclude_iff hevents hjson htime hlimit hlogged hrules,
      and_iff_left hattestation]
    constructor
    · rintro ⟨hlegible, hreadable, hviolations⟩
      exact ⟨hargs, hbackend, hredirected, hattached, hlegible, hreadable, hviolations⟩
    · intro hpresentable
      exact ⟨hpresentable.session, hpresentable.readable, hpresentable.violations⟩

end Complete

/-- The report on a target that does nothing, under the tracer. -/
theorem analyze_complete_quiet :
    ∃ result, runIn "/tmp/execell-session-4000".toList ["/bin/true".toList] {} quietEnv =
        some result ∧
      Complete result (reportedEvents ["/bin/true".toList] {} quietEnv) := by
  obtain ⟨result, hresult⟩ : ∃ result,
      runIn "/tmp/execell-session-4000".toList ["/bin/true".toList] {} quietEnv = some result :=
    ⟨_, rfl⟩
  have htexts : ∀ event ∈ reportedEvents ["/bin/true".toList] {} quietEnv,
      event.payload.texts = [] ∧ violationOf event = none := by decide
  refine ⟨result, hresult, (analyze_complete_iff (by decide) hresult).mpr ?_⟩
  refine ⟨List.cons_ne_nil _ _, rfl, rfl, rfl, by decide, ?_, ?_⟩
  · intro event hmem value hvalue
    rw [(htexts event hmem).1] at hvalue
    cases hvalue
  · intro event hmem rule resource hpayload
    have hnone := (htexts event hmem).2
    rw [violationOf, hpayload] at hnone
    cases hnone

/-- A target in the sandbox that is killed at the deadline, with `SIGKILL`. -/
def overdueEnv : Env :=
  { quietEnv with
    capture := { quietEnv.capture with
      passes := [{ expired := true }]
      killed := some ⟨9, by decide, by decide⟩ } }

/-- After a timeout in the sandbox `events.json` is a closing bracket without the record of
the timeout, and neither it nor the report is JSON. -/
theorem analyze_incomplete_overdue :
    ∃ result, runIn "/tmp/execell-session-4000".toList ["/bin/sleep".toList] { sandbox := true }
        overdueEnv = some result ∧
      result.timedOut = true ∧ result.eventsJson = [']'] ∧ ¬ WellFormed result.eventsJson ∧
      ¬ Complete result
        (reportedEvents ["/bin/sleep".toList] { sandbox := true } overdueEnv) := by
  obtain ⟨result, hresult⟩ : ∃ result, runIn "/tmp/execell-session-4000".toList
      ["/bin/sleep".toList] { sandbox := true } overdueEnv = some result := ⟨_, rfl⟩
  have hleft : result.timedOut = true ∧ result.eventsJson = [']'] := by
    obtain rfl := Option.some.inj hresult
    decide
  refine ⟨result, hresult, hleft.1, hleft.2, ?_, ?_⟩
  · rw [hleft.2]
    exact not_wellFormed_bracket
  · rintro ⟨objects, _, hdocument, _⟩
    rw [hleft.2] at hdocument
    exact not_wellFormed_bracket ⟨_, hdocument⟩

end ExeCell.Analyze
