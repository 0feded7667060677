import ExeCell.Lib.JsonAppend
import ExeCell.Package.Scan
import ExeCell.Report.Framing

/-!
# The records of an observation

Every entry that `observe` leaves in `events`, `processes` or `network` is either an object
that it writes itself (`Record`) or a piece cut out of the standard error of the target. For
the objects `oneObject_iff` says when the entry is an object on one line: when no text in it
has a control byte that its writer leaves as it is. `events_runOne` and its likes say that
the entries of `run_one` are records.
-/

namespace ExeCell.Package

open Json
open Report (natField intField boolField good_natField good_intField good_boolField)
open Sandbox (Config Captured attestation)

/-! ## The writers of literals -/

/-- The character of a text that `escape` writes. -/
def observationEscape (c : Char) : Text :=
  if c = '"' ∨ c = '\\' then ['\\', c]
  else if c = '\n' then ['\\', 'n']
  else if c = '\r' then ['\\', 'r']
  else [c]

/-- The character of the root that `attestation` writes. -/
def manifestEscape (c : Char) : Text := if c = '\\' ∨ c = '"' then ['\\', c] else [c]

/-- The character of a text that `json_escape` writes. -/
def artifactEscape (c : Char) : Text :=
  if c = '"' ∨ c = '\\' then ['\\', c]
  else if c = '\n' then ['\\', 'n']
  else if c = '\r' then ['\\', 'r']
  else if c = '\t' then ['\\', 't']
  else [c]

theorem shortens_observationEscape : Shortens observationEscape := by
  intro c
  rw [observationEscape]
  split_ifs with hquote hline hreturn
  · rcases hquote with rfl | rfl
    · exact Or.inl ⟨'"', rfl, rfl⟩
    · exact Or.inl ⟨'\\', rfl, rfl⟩
  · subst hline
    exact Or.inl ⟨'n', rfl, rfl⟩
  · subst hreturn
    exact Or.inl ⟨'r', rfl, rfl⟩
  · exact Or.inr ⟨rfl, not_or.mp hquote⟩

theorem shortens_manifestEscape : Shortens manifestEscape := by
  intro c
  rw [manifestEscape]
  split_ifs with hquote
  · rcases hquote with rfl | rfl
    · exact Or.inl ⟨'\\', rfl, rfl⟩
    · exact Or.inl ⟨'"', rfl, rfl⟩
  · exact Or.inr ⟨rfl, (not_or.mp hquote).symm⟩

theorem shortens_artifactEscape : Shortens artifactEscape := by
  intro c
  rw [artifactEscape]
  split_ifs with hquote hline hreturn htab
  · rcases hquote with rfl | rfl
    · exact Or.inl ⟨'"', rfl, rfl⟩
    · exact Or.inl ⟨'\\', rfl, rfl⟩
  · subst hline
    exact Or.inl ⟨'n', rfl, rfl⟩
  · subst hreturn
    exact Or.inl ⟨'r', rfl, rfl⟩
  · subst htab
    exact Or.inl ⟨'t', rfl, rfl⟩
  · exact Or.inr ⟨rfl, not_or.mp hquote⟩

/-- The text has no control byte but these. -/
def Printed (allowed : List Char) (value : Text) : Prop :=
  ∀ c ∈ value, 0x20 ≤ c.toNat ∨ c ∈ allowed

instance (allowed : List Char) (value : Text) : Decidable (Printed allowed value) :=
  inferInstanceAs (Decidable (∀ c ∈ value, 0x20 ≤ c.toNat ∨ c ∈ allowed))

theorem any_isRaw {escape : Char → Text} {allowed : List Char}
    (h : ∀ c, isRaw escape c = false ↔ 0x20 ≤ c.toNat ∨ c ∈ allowed) (value : Text) :
    value.any (isRaw escape) = false ↔ Printed allowed value := by
  rw [List.any_eq_false]
  apply forall₂_congr
  intro c _
  rw [Bool.not_eq_true, h]

theorem isRaw_observationEscape (c : Char) :
    isRaw observationEscape c = false ↔ 0x20 ≤ c.toNat ∨ c ∈ ['\n', '\r'] := by
  rw [isRaw, observationEscape]
  split_ifs with hquote hline hreturn
  · rcases hquote with rfl | rfl <;> decide
  · subst hline
    decide
  · subst hreturn
    decide
  · simp [hline, hreturn]

theorem isRaw_manifestEscape (c : Char) :
    isRaw manifestEscape c = false ↔ 0x20 ≤ c.toNat ∨ c ∈ ([] : List Char) := by
  rw [isRaw, manifestEscape]
  split_ifs with hquote
  · rcases hquote with rfl | rfl <;> decide
  · simp

theorem isRaw_artifactEscape (c : Char) :
    isRaw artifactEscape c = false ↔ 0x20 ≤ c.toNat ∨ c ∈ ['\n', '\r', '\t'] := by
  rw [isRaw, artifactEscape]
  split_ifs with hquote hline hreturn htab
  · rcases hquote with rfl | rfl <;> decide
  · subst hline
    decide
  · subst hreturn
    decide
  · subst htab
    decide
  · simp [hline, hreturn, htab]

/-! ## Fields on one line -/

/-- A field with a literal. -/
def quotedField (escape : Char → Text) (key : String) (value : Text) : Field :=
  ⟨key.toList, '"' :: value.flatMap escape ++ ['"'],
    if value.any (isRaw escape) then none else some (.string (units value))⟩

theorem isSome_quotedField {escape : Char → Text} {allowed : List Char}
    (h : ∀ c, isRaw escape c = false ↔ 0x20 ≤ c.toNat ∨ c ∈ allowed) (key : String) (value : Text) :
    (quotedField escape key value).value.isSome ↔ Printed allowed value := by
  rw [← any_isRaw h, quotedField]
  cases value.any (isRaw escape) <;> simp

/-- A field of an object of the writer, which stands on one line if it has a value. -/
structure Sound (field : Field) : Prop where
  good : field.Good
  line : field.value.isSome → '\n' ∉ field.text

theorem isSome_natField (key : String) (value : Nat) : (natField key value).value.isSome := rfl

theorem isSome_intField (key : String) (value : Int) : (intField key value).value.isSome := rfl

theorem isSome_boolField (key : String) (value : Bool) : (boolField key value).value.isSome := rfl

theorem newline_not_mem_shortened {escape : Char → Text} (h : Shortens escape) {value : Text}
    (hraw : value.any (isRaw escape) = false) : '\n' ∉ '"' :: value.flatMap escape ++ ['"'] := by
  simp only [List.cons_append, List.mem_cons, List.mem_append, List.mem_flatMap, List.not_mem_nil,
    or_false, not_or, not_exists, not_and]
  refine ⟨by decide, ?_, by decide⟩
  intro c hc hnewline
  have hc' : isRaw escape c = false := by simpa using List.any_eq_false.mp hraw c hc
  rcases h c with ⟨e, hshort, hescape⟩ | ⟨hescape, _⟩
  · rw [hescape] at hnewline
    rcases List.mem_cons.mp hnewline with hslash | hletter
    · exact absurd hslash (by decide)
    · rw [← List.mem_singleton.mp hletter] at hshort
      cases hshort
  · rw [hescape, List.mem_singleton] at hnewline
    subst hnewline
    rw [isRaw, hescape] at hc'
    exact absurd hc' (by decide)

theorem sound_quotedField {escape : Char → Text} (h : Shortens escape) {key : String}
    (hkey : Plain key.toList) (value : Text) : Sound (quotedField escape key value) where
  good := ⟨hkey, piece_shortened h value⟩
  line hsome := by
    apply newline_not_mem_shortened h
    cases hraw : value.any (isRaw escape) with
    | false => rfl
    | true =>
      rw [quotedField, hraw] at hsome
      cases hsome

theorem newline_not_mem_ofNat (value : Nat) : '\n' ∉ Text.ofNat value :=
  Text.not_mem_ofNat (by decide) value

theorem newline_not_mem_ofInt (value : Int) : '\n' ∉ Text.ofInt value := by
  intro h
  rcases Text.of_mem_ofInt h with hdigit | hsign
  · exact absurd hdigit (by decide)
  · exact absurd hsign (by decide)

theorem sound_natField {key : String} (hkey : Plain key.toList) (value : Nat) :
    Sound (natField key value) :=
  ⟨good_natField hkey value, fun _ => newline_not_mem_ofNat value⟩

theorem sound_intField {key : String} (hkey : Plain key.toList) (value : Int) :
    Sound (intField key value) :=
  ⟨good_intField hkey value, fun _ => newline_not_mem_ofInt value⟩

theorem sound_boolField {key : String} (hkey : Plain key.toList) (value : Bool) :
    Sound (boolField key value) := by
  refine ⟨good_boolField hkey value, fun _ => ?_⟩
  cases value with
  | true => exact (by decide : '\n' ∉ Text.ofBool true)
  | false => exact (by decide : '\n' ∉ Text.ofBool false)

theorem newline_not_mem_objectText {fields : List Field} (h : ∀ f ∈ fields, Plain f.key)
    (hline : ∀ f ∈ fields, '\n' ∉ f.text) : '\n' ∉ objectText fields := by
  have hmember : ∀ f ∈ fields, '\n' ∉ f.member := by
    intro f hf hnewline
    simp only [Field.member, List.cons_append, List.mem_cons, List.mem_append] at hnewline
    rcases hnewline with hquote | hkey | hquote | hcolon | htext
    · exact absurd hquote (by decide)
    · exact absurd (h f hf '\n' hkey).2.2 (by decide)
    · exact absurd hquote (by decide)
    · exact absurd hcolon (by decide)
    · exact hline f hf htext
  have hcommas : '\n' ∉ commas (fields.map Field.member) := by
    intro hnewline
    rcases mem_commas hnewline with hcomma | ⟨text, htext, hnewline⟩
    · exact absurd hcomma (by decide)
    · obtain ⟨f, hf, rfl⟩ := List.mem_map.mp htext
      exact hmember f hf hnewline
  simp [objectText, hcommas]

/-- One JSON object on a line of its own. -/
def OneObject (text : Text) : Prop := '\n' ∉ text ∧ ∃ members, Document text (.object members)

theorem oneObject_iff {fields : List Field} (hne : fields ≠ []) (h : ∀ f ∈ fields, Sound f) :
    OneObject (objectText fields) ↔ ∀ f ∈ fields, f.value.isSome := by
  have hpiece := piece_object hne fun f hf => (h f hf).good
  have hvalue : (∃ members, Document (objectText fields) (.object members)) ↔
      ∀ f ∈ fields, f.value.isSome := by
    rw [← isSome_objectValue, objectValue, Option.isSome_map, Option.isSome_iff_exists]
    apply exists_congr
    intro members
    rw [hpiece.document_iff, objectValue, Option.map_eq_some_iff]
    constructor
    · rintro ⟨members', hmembers, heq⟩
      cases heq
      exact hmembers
    · intro hmembers
      exact ⟨members, hmembers, rfl⟩
  rw [OneObject, hvalue, and_iff_right_iff_imp]
  intro hsome
  exact newline_not_mem_objectText (fun f hf => (h f hf).good.plain)
    fun f hf => (h f hf).line (hsome f hf)

/-! ## Records -/

/-- The entries that say nothing but what kind they are. -/
inductive Notice where
  | workerFailure
  | servicePath
  | persistencePath
  | privilegeChange
  | observationComplete
  deriving DecidableEq, Repr

def Notice.type : Notice → Text
  | workerFailure => "worker_failure".toList
  | servicePath => "service_path".toList
  | persistencePath => "persistence_path".toList
  | privilegeChange => "privilege_change".toList
  | observationComplete => "observation_complete".toList

/-- An object that `observe` writes. -/
inductive Record where
  | started (requested : Bool)
  | policy
  | notStaged (path : Text)
  | rejected
  | attested (config : Config)
  | ran (task : Task) (captured : Captured)
  | process (path : Text) (status : Int)
  | network (path : Text)
  | notice (kind : Notice)

/-- The object of `attestation`. -/
def manifestFields (config : Config) : List Field :=
  [natField "schema_version" 1,
    quotedField manifestEscape "backend"
      (if config.backend = .vm then "vm".toList else "namespace".toList),
    boolField "user_namespace" config.userNamespace,
    boolField "mount_namespace" config.mountNamespace,
    boolField "network_namespace" config.networkNamespace,
    boolField "no_new_privileges" config.noNewPrivileges,
    boolField "capabilities_dropped" config.dropCapabilities,
    boolField "seccomp" (!config.seccompAllowlist.isEmpty),
    boolField "clean_environment" config.cleanEnvironment,
    boolField "cgroup" (!config.cgroup.path.isEmpty),
    quotedField manifestEscape "rootfs" config.rootfs]

def escapedField (key : String) (value : Text) : Field := quotedField observationEscape key value

theorem sound_escapedField {key : String} (hkey : Plain key.toList) (value : Text) :
    Sound (escapedField key value) := sound_quotedField shortens_observationEscape hkey value

theorem isSome_escapedField {key : String} {value : Text} :
    (escapedField key value).value.isSome ↔ Printed ['\n', '\r'] value :=
  isSome_quotedField isRaw_observationEscape key value

/-- The fields of an event. -/
def typed (type : Text) (more : List Field) : List Field :=
  natField "schema_version" 1 :: escapedField "type" type :: more

namespace Record

def fields : Record → List Field
  | started requested =>
    typed "observation_start".toList
      [escapedField "network" (if requested then "requested".toList else "isolated".toList)]
  | policy =>
    typed "sandbox_policy".toList
      [boolField "no_new_privileges" true, escapedField "capabilities" "dropped".toList]
  | notStaged path =>
    typed "observation_skipped".toList
      [escapedField "path" path, escapedField "reason" "not staged".toList]
  | rejected => typed "observation_rejected".toList [escapedField "reason" "snapshot".toList]
  | attested config =>
    typed "attestation".toList
      [⟨"manifest".toList, attestation config, objectValue (manifestFields config)⟩]
  | ran task captured =>
    typed (if task.script then "maintainer_script".toList else "executable_smoke".toList)
      [escapedField "path" task.path, intField "status" captured.status,
        boolField "timed_out" captured.timedOut, escapedField "stdout" captured.stdoutData,
        escapedField "stderr" captured.stderrData]
  | process path status => [escapedField "path" path, intField "status" status]
  | network path => [escapedField "path" path, boolField "isolated" true]
  | notice kind => typed kind.type []

def text (record : Record) : Text := objectText record.fields

/-- What is in the record can stand in its object. -/
def Fits : Record → Prop
  | notStaged path => Printed ['\n', '\r'] path
  | attested config => Printed [] config.rootfs
  | ran task captured =>
    Printed ['\n', '\r'] task.path ∧ Printed ['\n', '\r'] captured.stdoutData ∧
      Printed ['\n', '\r'] captured.stderrData
  | process path _ => Printed ['\n', '\r'] path
  | network path => Printed ['\n', '\r'] path
  | started _ | policy | rejected | notice _ => True

theorem fields_ne_nil (record : Record) : record.fields ≠ [] := by
  cases record <;> exact List.cons_ne_nil _ _

end Record

set_option maxRecDepth 2000 in
theorem attestation_eq (config : Config) : attestation config = objectText (manifestFields config) := by
  have hbackend : (if config.backend = .vm then "vm".toList else "namespace".toList).flatMap
      manifestEscape = if config.backend = .vm then "vm".toList else "namespace".toList := by
    split <;> decide
  unfold attestation manifestFields
  simp only [objectText, List.map_cons, List.map_nil, commas_cons_cons, commas_singleton,
    Field.member, quotedField, hbackend, natField, boolField, List.cons_append, List.append_assoc,
    List.nil_append]
  rfl

theorem sound_manifestFields (config : Config) : ∀ f ∈ manifestFields config, Sound f := by
  simp only [manifestFields, List.forall_mem_cons]
  refine ⟨sound_natField (by decide) _, sound_quotedField shortens_manifestEscape (by decide) _,
    sound_boolField (by decide) _, sound_boolField (by decide) _, sound_boolField (by decide) _,
    sound_boolField (by decide) _, sound_boolField (by decide) _, sound_boolField (by decide) _,
    sound_boolField (by decide) _, sound_boolField (by decide) _,
    sound_quotedField shortens_manifestEscape (by decide) _, List.forall_mem_nil _⟩

theorem isSome_manifestFields (config : Config) :
    (∀ f ∈ manifestFields config, f.value.isSome) ↔ Printed [] config.rootfs := by
  have hbackend : Printed [] (if config.backend = .vm then "vm".toList else "namespace".toList) := by
    split <;> decide
  simp only [manifestFields, List.forall_mem_cons, isSome_quotedField isRaw_manifestEscape, hbackend,
    isSome_natField, isSome_boolField, List.not_mem_nil, IsEmpty.forall_iff, implies_true, true_and,
    and_true]

/-- The manifest as a field. -/
theorem sound_manifest (config : Config) :
    Sound ⟨"manifest".toList, attestation config, objectValue (manifestFields config)⟩ := by
  have hsound := sound_manifestFields config
  have hne : manifestFields config ≠ [] := List.cons_ne_nil _ _
  have hkey : Plain "manifest".toList := by decide
  rw [attestation_eq]
  refine ⟨⟨hkey, piece_object hne fun f hf => (hsound f hf).good⟩, ?_⟩
  intro hsome
  have hvalue : ∀ f ∈ manifestFields config, f.value.isSome := isSome_objectValue.mp hsome
  exact newline_not_mem_objectText (fun f hf => (hsound f hf).good.plain)
    fun f hf => (hsound f hf).line (hvalue f hf)

theorem sound_typed {type : Text} {more : List Field} (h : ∀ f ∈ more, Sound f) :
    ∀ f ∈ typed type more, Sound f := by
  simp only [typed, List.forall_mem_cons]
  exact ⟨sound_natField (by decide) _, sound_escapedField (by decide) _, h⟩

theorem sound_fields (record : Record) : ∀ f ∈ record.fields, Sound f := by
  cases record with
  | started requested =>
    apply sound_typed
    simp only [List.forall_mem_cons]
    exact ⟨sound_escapedField (by decide) _, List.forall_mem_nil _⟩
  | policy =>
    apply sound_typed
    simp only [List.forall_mem_cons]
    exact ⟨sound_boolField (by decide) _, sound_escapedField (by decide) _, List.forall_mem_nil _⟩
  | notStaged path =>
    apply sound_typed
    simp only [List.forall_mem_cons]
    exact ⟨sound_escapedField (by decide) _, sound_escapedField (by decide) _, List.forall_mem_nil _⟩
  | rejected =>
    apply sound_typed
    simp only [List.forall_mem_cons]
    exact ⟨sound_escapedField (by decide) _, List.forall_mem_nil _⟩
  | attested config =>
    apply sound_typed
    simp only [List.forall_mem_cons]
    exact ⟨sound_manifest config, List.forall_mem_nil _⟩
  | ran task captured =>
    apply sound_typed
    simp only [List.forall_mem_cons]
    exact ⟨sound_escapedField (by decide) _, sound_intField (by decide) _,
      sound_boolField (by decide) _, sound_escapedField (by decide) _,
      sound_escapedField (by decide) _, List.forall_mem_nil _⟩
  | process path status =>
    simp only [Record.fields, List.forall_mem_cons]
    exact ⟨sound_escapedField (by decide) _, sound_intField (by decide) _, List.forall_mem_nil _⟩
  | network path =>
    simp only [Record.fields, List.forall_mem_cons]
    exact ⟨sound_escapedField (by decide) _, sound_boolField (by decide) _, List.forall_mem_nil _⟩
  | notice kind => exact sound_typed (List.forall_mem_nil _)

theorem isSome_fields (record : Record) :
    (∀ f ∈ record.fields, f.value.isSome) ↔ record.Fits := by
  have htyped : ∀ {type : Text} {more : List Field}, Printed ['\n', '\r'] type →
      ((∀ f ∈ typed type more, f.value.isSome) ↔ ∀ f ∈ more, f.value.isSome) := by
    intro type more htype
    simp only [typed, List.forall_mem_cons, isSome_escapedField, htype, isSome_natField, true_and]
  cases record with
  | started requested =>
    have hvalue : Printed ['\n', '\r']
        (if requested then "requested".toList else "isolated".toList) := by
      split <;> decide
    rw [Record.fields, htyped (by decide), List.forall_mem_singleton, isSome_escapedField]
    exact iff_true_intro hvalue
  | policy =>
    have hvalue : Printed ['\n', '\r'] "dropped".toList := by decide
    rw [Record.fields, htyped (by decide), List.forall_mem_cons, List.forall_mem_singleton,
      isSome_escapedField]
    exact iff_true_intro ⟨rfl, hvalue⟩
  | notStaged path =>
    have hvalue : Printed ['\n', '\r'] "not staged".toList := by decide
    rw [Record.fields, htyped (by decide), List.forall_mem_cons, List.forall_mem_singleton,
      isSome_escapedField, isSome_escapedField]
    exact and_iff_left hvalue
  | rejected =>
    have hvalue : Printed ['\n', '\r'] "snapshot".toList := by decide
    rw [Record.fields, htyped (by decide), List.forall_mem_singleton, isSome_escapedField]
    exact iff_true_intro hvalue
  | attested config =>
    rw [Record.fields, htyped (by decide), List.forall_mem_singleton, isSome_objectValue,
      isSome_manifestFields]
    rfl
  | ran task captured =>
    rw [Record.fields, htyped (by split <;> decide)]
    simp only [List.forall_mem_cons, isSome_escapedField, isSome_intField, isSome_boolField,
      List.not_mem_nil, IsEmpty.forall_iff, implies_true, true_and, and_true, Record.Fits]
  | process path status =>
    simp only [Record.fields, List.forall_mem_cons, isSome_escapedField, isSome_intField,
      List.not_mem_nil, IsEmpty.forall_iff, implies_true, and_true, Record.Fits]
  | network path =>
    simp only [Record.fields, List.forall_mem_cons, isSome_escapedField, isSome_boolField,
      List.not_mem_nil, IsEmpty.forall_iff, implies_true, and_true, Record.Fits]
  | notice kind =>
    rw [Record.fields, htyped (by cases kind <;> decide)]
    exact iff_true_intro (List.forall_mem_nil _)

/-- A record is an object on one line exactly when what is in it can stand there. -/
theorem oneObject_record_iff (record : Record) : OneObject record.text ↔ record.Fits := by
  rw [Record.text, oneObject_iff record.fields_ne_nil (sound_fields record), isSome_fields]

/-! ## The records as they are written -/

theorem escape_eq (value : Text) : escape value = value.flatMap observationEscape := rfl

theorem text_notStaged (path : Text) :
    "\x7b\"schema_version\":1,\"type\":\"observation_skipped\",\"path\":\"".toList ++
      escape path ++ "\",\"reason\":\"not staged\"\x7d".toList = (Record.notStaged path).text := by
  simp only [Record.text, Record.fields, typed, objectText, List.map_cons, List.map_nil,
    commas_cons_cons, commas_singleton, Field.member, escapedField, quotedField, natField,
    ← escape_eq, List.cons_append, List.append_assoc, List.nil_append]
  rfl

theorem text_attested (config : Config) :
    "\x7b\"schema_version\":1,\"type\":\"attestation\",\"manifest\":".toList ++
      attestation config ++ "\x7d".toList = (Record.attested config).text := by
  simp only [Record.text, Record.fields, typed, objectText, List.map_cons, List.map_nil,
    commas_cons_cons, commas_singleton, Field.member, escapedField, quotedField, natField,
    ← escape_eq, List.cons_append, List.append_assoc, List.nil_append]
  generalize attestation config = manifest
  rfl

theorem text_ran (task : Task) (captured : Captured) :
    (captureEntries task captured).events = [(Record.ran task captured).text] := by
  have hkind : escape (if task.script then "maintainer_script".toList
      else "executable_smoke".toList) =
        if task.script then "maintainer_script".toList else "executable_smoke".toList := by
    split <;> decide
  simp only [captureEntries, Record.text, Record.fields, typed, objectText, List.map_cons,
    List.map_nil, commas_cons_cons, commas_singleton, Field.member, escapedField, quotedField,
    natField, intField, boolField, ← escape_eq, hkind, List.cons_append, List.append_assoc,
    List.nil_append]
  generalize (if task.script then "maintainer_script".toList
    else "executable_smoke".toList) = kind
  generalize escape task.path = path
  generalize escape captured.stdoutData = out
  generalize escape captured.stderrData = err
  generalize Text.ofInt captured.status = status
  generalize Text.ofBool captured.timedOut = timedOut
  rfl

theorem text_process (task : Task) (captured : Captured) :
    (captureEntries task captured).processes =
      [(Record.process task.path captured.status).text] := by
  simp only [captureEntries, Record.text, Record.fields, objectText, List.map_cons,
    List.map_nil, commas_cons_cons, commas_singleton, Field.member, escapedField, quotedField,
    intField, ← escape_eq, List.cons_append, List.append_assoc, List.nil_append]
  rfl

theorem text_network (task : Task) (captured : Captured) :
    (captureEntries task captured).network = [(Record.network task.path).text] := by
  simp only [captureEntries, Record.text, Record.fields, objectText, List.map_cons,
    List.map_nil, commas_cons_cons, commas_singleton, Field.member, escapedField, quotedField,
    boolField, ← escape_eq, List.cons_append, List.append_assoc, List.nil_append]
  rfl

end ExeCell.Package
