import ExeCell.Package.Entries

/-!
# The artifacts of a scan

`write_artifacts` puts the result of a scan into JSON files. Most entries of
`processes.json` and `network.json` are objects already when they come here, and those that
a target has put on its standard error behind a mark are taken over without a check.
`reports_iff` says for which packages and which output the files are what they should be.
-/

namespace ExeCell.Package

open Json
open Report (natField)
open Sandbox (Captured)

/-! ## Writing the files -/

/-- `json_object_array`. -/
def jsonObjectArray (values : List Text) : Text :=
  '[' :: List.intercalate [','] values ++ [']']

def metadataJson (metadata : Metadata) : Text :=
  "\x7b\"schema_version\":2,\"package\":\"".toList ++ jsonEscape metadata.package ++
    "\",\"name\":\"".toList ++ jsonEscape metadata.name ++
    "\",\"version\":\"".toList ++ jsonEscape metadata.version ++
    "\",\"architecture\":\"".toList ++ jsonEscape metadata.architecture ++
    "\",\"signature\":\"".toList ++ jsonEscape metadata.signature ++
    "\",\"dependencies\":".toList ++ jsonArray metadata.dependencies ++
    ",\"scripts\":".toList ++ jsonArray metadata.scripts ++
    ",\"hooks\":".toList ++ jsonArray metadata.hooks ++
    ",\"files\":".toList ++ jsonArray metadata.files ++
    ",\"executables\":".toList ++ jsonArray metadata.executables ++
    ",\"executable_fingerprints\":".toList ++ jsonArray metadata.executableFingerprints ++
    "\x7d\n".toList

def summaryJson (result : Result) : Text :=
  "\x7b\"schema_version\":2,\"ok\":".toList ++ Text.ofBool result.ok ++
    ",\"risk_score\":".toList ++ Text.ofInt result.riskScore ++
    ",\"verdict\":\"".toList ++ jsonEscape result.verdict ++
    "\",\"coverage_confidence\":".toList ++ Text.ofNat result.coverageConfidence ++
    "\x7d\n".toList

def filesystemJson (result : Result) : Text :=
  "\x7b\"schema_version\":2,\"created\":".toList ++ jsonArray result.created ++
    ",\"modified\":".toList ++ jsonArray result.modified ++
    ",\"deleted\":".toList ++ jsonArray result.deleted ++
    ",\"mode_changed\":".toList ++ jsonArray result.modeChanged ++
    ",\"ownership_changed\":".toList ++ jsonArray result.ownershipChanged ++
    ",\"hash_changed\":".toList ++ jsonArray result.hashChanged ++ "\x7d\n".toList

/-- The text of `processes.json` and of `network.json`. -/
def eventsObject (entries : List Text) : Text :=
  "\x7b\"schema_version\":1,\"events\":".toList ++ jsonObjectArray entries ++ "\x7d\n".toList

def processesJson (result : Result) : Text := eventsObject result.processEvents

def networkJson (result : Result) : Text := eventsObject result.networkEvents

def riskJson (result : Result) : Text :=
  "\x7b\"schema_version\":2,\"score\":".toList ++ Text.ofInt result.riskScore ++
    ",\"verdict\":\"".toList ++ jsonEscape result.verdict ++
    "\",\"factors\":".toList ++ jsonArray result.riskFactors ++
    ",\"coverage\":".toList ++ jsonArray result.coverage ++
    ",\"coverage_confidence\":".toList ++ Text.ofNat result.coverageConfidence ++
    "\x7d\n".toList

/-- `write_artifacts`: the files with their contents. -/
def writeArtifacts (result : Result) : List (LexicalPath.Path × Text) :=
  [("metadata.json".toList, metadataJson result.metadata), ("summary.json".toList, summaryJson result),
    ("filesystem.json".toList, filesystemJson result),
    ("processes.json".toList, processesJson result), ("network.json".toList, networkJson result),
    ("risk.json".toList, riskJson result),
    ("events.jsonl".toList, result.events.flatMap fun event => event ++ ['\n'])].map
      fun (name, text) => (LexicalPath.append result.session name, text)

/-! ## `metadata.json` -/

def artifactField (key : String) (value : Text) : Field := quotedField artifactEscape key value

/-- A text of an array. -/
def artifactPart (value : Text) : Part :=
  ⟨'"' :: value.flatMap artifactEscape ++ ['"'],
    if value.any (isRaw artifactEscape) then none else some (.string (units value))⟩

def artifactsField (key : String) (values : List Text) : Field :=
  ⟨key.toList, arrayText ((values.map artifactPart).map Part.text),
    arrayValue (values.map artifactPart)⟩

def metadataFields (metadata : Metadata) : List Field :=
  [natField "schema_version" 2, artifactField "package" metadata.package,
    artifactField "name" metadata.name, artifactField "version" metadata.version,
    artifactField "architecture" metadata.architecture,
    artifactField "signature" metadata.signature,
    artifactsField "dependencies" metadata.dependencies,
    artifactsField "scripts" metadata.scripts, artifactsField "hooks" metadata.hooks,
    artifactsField "files" metadata.files, artifactsField "executables" metadata.executables,
    artifactsField "executable_fingerprints" metadata.executableFingerprints]

theorem jsonArray_eq (values : List Text) :
    jsonArray values = arrayText ((values.map artifactPart).map Part.text) := by
  rw [List.map_map]
  rfl

set_option maxRecDepth 2000 in
theorem metadataJson_eq (metadata : Metadata) :
    metadataJson metadata = objectText (metadataFields metadata) ++ ['\n'] := by
  have hescape : ∀ value : Text, value.flatMap artifactEscape = jsonEscape value := fun _ => rfl
  unfold metadataJson metadataFields
  simp only [objectText, List.map_cons, List.map_nil, commas_cons_cons, commas_singleton,
    Field.member, artifactField, artifactsField, ← jsonArray_eq, quotedField, natField, hescape,
    List.cons_append, List.append_assoc, List.nil_append]
  obtain ⟨package, name, version, architecture, dependencies, files, scripts, hooks, executables,
    executableFingerprints, signature⟩ := metadata
  dsimp only
  generalize jsonEscape package = package
  generalize jsonEscape name = name
  generalize jsonEscape version = version
  generalize jsonEscape architecture = architecture
  generalize jsonEscape signature = signature
  generalize jsonArray dependencies = dependencies
  generalize jsonArray scripts = scripts
  generalize jsonArray hooks = hooks
  generalize jsonArray files = files
  generalize jsonArray executables = executables
  generalize jsonArray executableFingerprints = fingerprints
  rfl

/-- The value that `metadata.json` should have. -/
def metadataValue (metadata : Metadata) : Value :=
  let text (value : Text) : Value := .string (units value)
  let texts (values : List Text) : Value := .array (values.map text)
  .object [(units "schema_version".toList, .number ['2']),
    (units "package".toList, text metadata.package), (units "name".toList, text metadata.name),
    (units "version".toList, text metadata.version),
    (units "architecture".toList, text metadata.architecture),
    (units "signature".toList, text metadata.signature),
    (units "dependencies".toList, texts metadata.dependencies),
    (units "scripts".toList, texts metadata.scripts), (units "hooks".toList, texts metadata.hooks),
    (units "files".toList, texts metadata.files),
    (units "executables".toList, texts metadata.executables),
    (units "executable_fingerprints".toList, texts metadata.executableFingerprints)]

/-- The texts of the metadata. -/
def Metadata.texts (metadata : Metadata) : List Text :=
  [metadata.package, metadata.name, metadata.version, metadata.architecture, metadata.signature] ++
    metadata.dependencies ++ metadata.scripts ++ metadata.hooks ++ metadata.files ++
    metadata.executables ++ metadata.executableFingerprints

theorem entry_artifactField (key : String) (value : Text) :
    (artifactField key value).entry = some (units key.toList, .string (units value)) ↔
      Printed ['\n', '\r', '\t'] value := by
  rw [← any_isRaw isRaw_artifactEscape, artifactField, quotedField, Field.entry]
  cases value.any (isRaw artifactEscape) <;> simp

theorem entry_artifactsField (key : String) (values : List Text) :
    (artifactsField key values).entry =
        some (units key.toList, .array (values.map fun value => .string (units value))) ↔
      ∀ value ∈ values, Printed ['\n', '\r', '\t'] value := by
  have hpart : ∀ value : Text, (artifactPart value).value = some (.string (units value)) ↔
      Printed ['\n', '\r', '\t'] value := by
    intro value
    rw [← any_isRaw isRaw_artifactEscape, artifactPart]
    cases value.any (isRaw artifactEscape) <;> simp
  have hall : all ((values.map artifactPart).map Part.value) =
        some (values.map fun value => .string (units value)) ↔
      ∀ value ∈ values, Printed ['\n', '\r', '\t'] value := by
    rw [all_eq_some_iff, List.map_map, List.forall₂_map_left_iff, List.forall₂_map_right_iff,
      List.forall₂_same]
    exact forall₂_congr fun value _ => hpart value
  rw [← hall, artifactsField, Field.entry, arrayValue]
  cases all ((values.map artifactPart).map Part.value) <;> simp

theorem good_metadataFields (metadata : Metadata) : ∀ f ∈ metadataFields metadata, f.Good := by
  have hone : ∀ {key : String}, Plain key.toList → ∀ value, (artifactField key value).Good :=
    fun hkey value => ⟨hkey, piece_shortened shortens_artifactEscape value⟩
  have hmany : ∀ {key : String}, Plain key.toList → ∀ values, (artifactsField key values).Good := by
    intro key hkey values
    refine ⟨hkey, piece_array ?_⟩
    rw [List.forall_mem_map]
    intro value _
    exact piece_shortened shortens_artifactEscape value
  simp only [metadataFields, List.forall_mem_cons]
  exact ⟨Report.good_natField (by decide) 2, hone (by decide) _, hone (by decide) _,
    hone (by decide) _, hone (by decide) _, hone (by decide) _, hmany (by decide) _,
    hmany (by decide) _, hmany (by decide) _, hmany (by decide) _, hmany (by decide) _,
    hmany (by decide) _, List.forall_mem_nil _⟩

theorem metadataJson_iff (metadata : Metadata) :
    Document (metadataJson metadata) (metadataValue metadata) ↔
      ∀ text ∈ metadata.texts, Printed ['\n', '\r', '\t'] text := by
  have hversion : (natField "schema_version" 2).entry =
      some (units "schema_version".toList, .number ['2']) := rfl
  have hne : metadataFields metadata ≠ [] := List.cons_ne_nil _ _
  have hpiece := piece_object hne (good_metadataFields metadata)
  rw [metadataJson_eq, hpiece.document_line_iff, objectValue, metadataValue, Option.map_eq_some_iff]
  simp only [Value.object.injEq, exists_eq_right, all_eq_some_iff]
  simp only [metadataFields, List.map_cons, List.map_nil, List.forall₂_cons, hversion,
    entry_artifactField, entry_artifactsField, List.Forall₂.nil, and_true, true_and, Metadata.texts,
    List.forall_mem_append, List.forall_mem_cons, and_assoc]
  simp only [List.not_mem_nil, IsEmpty.forall_iff, implies_true, true_and]

/-! ## `processes.json` and `network.json` -/

/-- The value that an entry should be read as. -/
def Line.Shows : Line → Value → Prop
  | .record (.process path status), value =>
    value = .object [(units "path".toList, .string (units path)),
      (units "status".toList, .number (Text.ofInt status))]
  | .record (.network path), value =>
    value = .object [(units "path".toList, .string (units path)),
      (units "isolated".toList, .bool true)]
  | _, value => ∃ members, value = .object members

/-- The file is an object with the objects of these lines in their order. -/
def Lists (text : Text) (lines : List Line) : Prop :=
  ∃ objects, Document text (.object [(units "schema_version".toList, .number ['1']),
      (units "events".toList, .array objects)]) ∧
    List.Forall₂ (fun line object => Document line.text object ∧ line.Shows object) lines objects

theorem eventsObject_eq (entries : List Text) (value : Option Value) :
    eventsObject entries =
      objectText [natField "schema_version" 1, ⟨"events".toList, arrayText entries, value⟩] ++
        ['\n'] := by
  have harray : jsonObjectArray entries = arrayText entries := rfl
  unfold eventsObject
  simp only [harray, objectText, List.map_cons, List.map_nil, commas_cons_cons, commas_singleton,
    Field.member, natField, String.reduceToList, List.cons_append, List.append_assoc,
    List.nil_append]
  rfl

/-- An entry that can stand among JSON objects shows what it should. -/
theorem shows_of_fits {line : Line} (h : line.Fits) :
    ∃ object, Document line.text object ∧ line.Shows object := by
  obtain ⟨_, members, hdocument⟩ := line.oneObject_iff.mpr h
  cases line with
  | cut text => exact ⟨_, hdocument, members, rfl⟩
  | record record =>
    have hpath : ∀ {path : Text}, Printed ['\n', '\r'] path →
        (escapedField "path" path).entry = some (units "path".toList, .string (units path)) := by
      intro path hprinted
      rw [escapedField, quotedField, Field.entry,
        (any_isRaw isRaw_observationEscape path).mpr hprinted]
      rfl
    have hpiece := piece_object record.fields_ne_nil fun f hf => (sound_fields record f hf).good
    cases record with
    | process path status =>
      refine ⟨_, hpiece.document_iff.mpr ?_, rfl⟩
      rw [objectValue, Record.fields, List.map_cons, hpath h]
      rfl
    | network path =>
      refine ⟨_, hpiece.document_iff.mpr ?_, rfl⟩
      rw [objectValue, Record.fields, List.map_cons, hpath h]
      rfl
    | started _ => exact ⟨_, hdocument, members, rfl⟩
    | policy => exact ⟨_, hdocument, members, rfl⟩
    | notStaged _ => exact ⟨_, hdocument, members, rfl⟩
    | rejected => exact ⟨_, hdocument, members, rfl⟩
    | attested _ => exact ⟨_, hdocument, members, rfl⟩
    | ran _ _ => exact ⟨_, hdocument, members, rfl⟩
    | notice _ => exact ⟨_, hdocument, members, rfl⟩

theorem fits_of_shows {line : Line} {object : Value} (h : Document line.text object)
    (hshows : line.Shows object) : line.Fits := by
  cases line with
  | cut text =>
    obtain ⟨members, rfl⟩ := hshows
    exact ⟨text.property, members, h⟩
  | record record =>
    have hpiece := piece_object record.fields_ne_nil fun f hf => (sound_fields record f hf).good
    have hvalue := hpiece.document_iff.mp h
    exact (isSome_fields record).mp (isSome_objectValue.mp (Option.isSome_of_eq_some hvalue))

theorem lists_iff (lines : List Line) :
    Lists (eventsObject (lines.map Line.text)) lines ↔ ∀ line ∈ lines, line.Fits := by
  have hshown : (∃ objects, List.Forall₂ (fun line object =>
      Document (Line.text line) object ∧ line.Shows object) lines objects) ↔
        ∀ line ∈ lines, line.Fits := by
    rw [exists_forall₂_iff]
    apply forall₂_congr
    intro line _
    constructor
    · rintro ⟨object, hdocument, hshows⟩
      exact fits_of_shows hdocument hshows
    · exact shows_of_fits
  rw [← hshown]
  apply exists_congr
  intro objects
  rw [and_iff_right_iff_imp]
  intro hobjects
  have harray : Fits (arrayText (lines.map Line.text)) (.array objects) := by
    apply fits_array
    rw [List.forall₂_map_left_iff]
    exact hobjects.imp fun _ _ h => h.1.fits
  have hversion : (natField "schema_version" 1).Shows
      (units "schema_version".toList, .number ['1']) :=
    ⟨by decide, rfl, (piece_nat 1).fits⟩
  have hkey : Plain "events".toList := by decide
  rw [eventsObject_eq _ none]
  exact (fits_object (List.cons_ne_nil _ _)
    (.cons hversion (.cons ⟨hkey, rfl, harray⟩ .nil))).document_line

/-! ## The reports of a scan -/

section Reports

variable {options : PackageOptions}

/-- The calls of `run_one` in a scan. -/
abbrev ScanCalls (options : PackageOptions) : Type :=
  Nat → (task : Task) → Call (observationOptions options.toScanOptions) task

/-- The reports of a scan are what they should be: every event of the observation is an
object on a line of its own, and the files show the entries and the metadata. -/
structure ReportsValid (host : ScanHost options) (result : Result) (ran : List Nat)
    (merged : Observed) : Prop where
  events : ∀ event ∈ (observed host.root merged).events, OneObject event
  processes : Lists (processesJson (concludeScan host result merged))
    (observedLines (scanJob options.toScanOptions result.metadata host.calls).tasks host.calls ran
      host.root).processes
  network : Lists (networkJson (concludeScan host result merged))
    (observedLines (scanJob options.toScanOptions result.metadata host.calls).tasks host.calls ran
      host.root).network
  metadata : Document (metadataJson (concludeScan host result merged).metadata)
    (metadataValue result.metadata)

variable {host : ScanHost options} {result : Result} {outputs : List Unit} {s : Schedule}
  {merged : Observed}

/-- The reports are what they should be exactly when every call of `run_one` that ends has
written lines that can stand among JSON objects, and the metadata has no control byte but
line ends and tabs. -/
theorem reports_iff
    (hrun : Machine.run (scheduleStep (scanJob options.toScanOptions result.metadata host.calls))
      (scanJob options.toScanOptions result.metadata host.calls).start host.turns =
        some (outputs, s))
    (hend : s.main = .merged merged) :
    ReportsValid host result s.ran merged ↔
      Machine.Along (scheduleStep (scanJob options.toScanOptions result.metadata host.calls))
          (fun t turn => ∀ index ∈ finished t turn, ∀ task,
            (scanJob options.toScanOptions result.metadata host.calls).tasks[index]? = some task →
              (host.calls index task).lines.Fit)
          (scanJob options.toScanOptions result.metadata host.calls).start host.turns ∧
        ∀ text ∈ result.metadata.texts, Printed ['\n', '\r', '\t'] text := by
  have hwrites := observed_writes hrun hend host.root
  have hfit := @fit_observedLines _ host.calls
    (scanJob options.toScanOptions result.metadata host.calls).tasks s.ran host.root
  rw [along_finished_iff _ hrun, ← hfit, ← metadataJson_iff]
  have hevents : (∀ event ∈ (observed host.root merged).events, OneObject event) ↔
      ∀ line ∈ (observedLines (scanJob options.toScanOptions result.metadata host.calls).tasks
        host.calls s.ran host.root).events, line.Fits := by
    rw [hwrites.events, List.forall_mem_map]
    exact forall₂_congr fun line _ => line.oneObject_iff
  have hprocesses : Lists (processesJson (concludeScan host result merged))
      (observedLines (scanJob options.toScanOptions result.metadata host.calls).tasks host.calls
        s.ran host.root).processes ↔
      ∀ line ∈ (observedLines (scanJob options.toScanOptions result.metadata host.calls).tasks
        host.calls s.ran host.root).processes, line.Fits := by
    have htext : processesJson (concludeScan host result merged) =
        eventsObject (observed host.root merged).processes := rfl
    rw [htext, hwrites.processes]
    exact lists_iff _
  have hnetwork : Lists (networkJson (concludeScan host result merged))
      (observedLines (scanJob options.toScanOptions result.metadata host.calls).tasks host.calls
        s.ran host.root).network ↔
      ∀ line ∈ (observedLines (scanJob options.toScanOptions result.metadata host.calls).tasks
        host.calls s.ran host.root).network, line.Fits := by
    have htext : networkJson (concludeScan host result merged) =
        eventsObject (observed host.root merged).network := rfl
    rw [htext, hwrites.network]
    exact lists_iff _
  constructor
  · intro h
    exact ⟨⟨hevents.mp h.events, hprocesses.mp h.processes, hnetwork.mp h.network⟩, h.metadata⟩
  · rintro ⟨⟨he, hp, hn⟩, hmetadata⟩
    exact ⟨hevents.mpr he, hprocesses.mpr hp, hnetwork.mpr hn, hmetadata⟩

end Reports

/-- The metadata of a package with one executable. -/
def toolMetadata : Metadata where
  package := packagePath
  name := "tool".toList
  version := "1.0-1".toList
  architecture := "any".toList
  files := [tool.path]
  executables := [tool.path]
  signature := "valid".toList

/-- A host on which the executable of the package prints this and succeeds. -/
def printingHost (out : Text) : ScanHost {} where
  package := packageHost []
  turns := soloTurns
  calls _ task :=
    Call.returning _ { capture := fun _ _ => { status := 0, stdoutData := out } } task
  root := bareRoot

/-- The result of a scan up to its observation. -/
def toolResult : Result := { metadata := toolMetadata }

/-- The captured output of the executable. -/
def printed (out : Text) : Captured := { status := 0, stdoutData := out }

/-- What the threads of `observe` have to do on it. -/
abbrev printingJob (out : Text) : Job :=
  scanJob ({} : PackageOptions).toScanOptions toolResult.metadata (printingHost out).calls

theorem printingHost_runs (out : Text) :
    ∃ outputs s merged,
      Machine.run (scheduleStep (printingJob out)) (printingJob out).start
        (printingHost out).turns = some (outputs, s) ∧
      s.main = .merged merged ∧ s.ran = [0] := by
  obtain ⟨outputs, s, merged, hrun, hend, hran⟩ :=
    @exists_run_of_outcome _ _ (fun r => r.1.ran = [0])
    (show (outcome (printingJob out) (printingHost out).turns).any _ from rfl)
  exact ⟨outputs, s, merged, hrun, hend, of_decide_eq_true hran⟩

/-- The lines of the only call. -/
theorem printingHost_lines (out : Text) :
    ((printingHost out).calls 0 tool).lines =
      ranLines (taskConfig (observationOptions {}) {} snapshotRoot) tool (printed out) :=
  rfl

/-- The executable prints a line. -/
theorem reports_printed :
    ∃ (s : Schedule) (merged : Observed), s.ran = [0] ∧
      ReportsValid (printingHost "ok\n".toList) toolResult s.ran merged := by
  obtain ⟨outputs, s, merged, hrun, hend, hran⟩ := printingHost_runs "ok\n".toList
  refine ⟨s, merged, hran, (reports_iff hrun hend).mpr ⟨?_, by decide⟩⟩
  rw [along_finished_iff _ hrun, hran, List.forall_mem_singleton]
  intro task htask
  change [tool][0]? = some task at htask
  cases htask
  rw [printingHost_lines, fit_ranLines]
  exact ⟨by decide, by decide, by decide, by decide, List.forall_mem_nil _⟩

/-- The executable prints a tab: the event about it is no JSON. -/
theorem tab_breaks_event :
    ∃ outputs s merged,
      Machine.run (scheduleStep (printingJob ['\t'])) (printingJob ['\t']).start
        (printingHost ['\t']).turns = some (outputs, s) ∧
      s.main = .merged merged ∧
      ∃ event ∈ (observed bareRoot merged).events, ¬ Json.WellFormed event := by
  obtain ⟨outputs, s, merged, hrun, hend, hran⟩ := printingHost_runs ['\t']
  have hwrites := observed_writes hrun hend bareRoot
  refine ⟨outputs, s, merged, hrun, hend, (Record.ran tool (printed ['\t'])).text, ?_, ?_⟩
  · have hline : Line.record (.ran tool (printed ['\t'])) ∈
        (observedLines (printingJob ['\t']).tasks (printingHost ['\t']).calls [0]
          bareRoot).events := by
      have hlines : observedLines [tool] (printingHost ['\t']).calls [0] bareRoot =
          ((headerLines (observationOptions {})).append
            ((ranLines (taskConfig (observationOptions {}) {} snapshotRoot) tool
              (printed ['\t'])).append {})).append (rootLines bareRoot) := rfl
      change _ ∈ (observedLines [tool] (printingHost ['\t']).calls [0] bareRoot).events
      rw [hlines]
      apply List.mem_append_left
      apply List.mem_append_right
      simp only [ranLines, Lines.append, List.mem_append, List.mem_singleton, or_true, true_or]
    rw [hwrites.events, hran]
    exact List.mem_map_of_mem hline
  · have hpiece := piece_object (Record.ran tool (printed ['\t'])).fields_ne_nil
      fun f hf => (sound_fields _ f hf).good
    rw [Record.text, hpiece.wellFormed_iff, isSome_objectValue, isSome_fields]
    intro hfits
    exact absurd hfits.2.1 (by decide)

end ExeCell.Package
