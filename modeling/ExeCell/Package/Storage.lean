import Mathlib.Data.Char
import Mathlib.Data.List.Lex
import Mathlib.Data.List.Sort
import ExeCell.Lib.RowidTable
import ExeCell.Lib.WriteLock
import ExeCell.Package.Archive
import ExeCell.Package.ScanRisk

/-!
# The observations of earlier scans

`storage::Database`. An observation is stored with the events of its scan, in one
transaction; `compare` puts the latest observations of two versions side by side, and
`previous_version` says which version to compare with.

What SQLite does is written down call by call (`Call`, `execute`), so that every call can
fail and other connections can move between any two of them. `migrate` and `store` are the
calls they make (`storeCalls`), with the `try` block around all but the first.
-/

namespace ExeCell.Package.Storage

open RowidTable (Table Picker)
open WriteLock (File)
open ArchiveAdapter (CString)

/-! ## Values -/

structure PackageIdentity where
  name : Text
  version : Text
  architecture : Text := []
  signature : Text := []
  sourceRevision : Text := []
  dependencyFingerprint : Text := []
  packageHash : Text := []
  buildOptions : Text := []
  staticFingerprint : Text := []
  dynamicFingerprint : Text := []
  deriving DecidableEq, Repr

structure Event where
  category : Text
  action : Text
  subject : Text
  detail : Text
  dynamic : Bool := false
  deriving DecidableEq, Repr

structure Observation where
  id : Int
  baseline : Bool
  deriving DecidableEq, Repr

/-- `storage::VersionDelta`. -/
structure VersionDelta extends Package.VersionDelta where
  fromBaseline : Bool := false
  removedEvents : List Text := []
  deriving DecidableEq, Repr

/-- A text on its way into a statement, or out of a column: up to its first NUL. -/
def cString (value : Text) : Text := (CString.ofText value).chars

/-- A row of `observations`, but for the time. -/
structure ObservationRow extends PackageIdentity where
  baseline : Int
  deriving DecidableEq, Repr

/-- A row of `events`. -/
structure EventRow where
  observationId : Int
  category : Text
  action : Text
  subject : Text
  detail : Text
  dynamic : Int
  deriving DecidableEq, Repr

/-- What is in a database file: the tables it has, and whether it has the index. -/
structure Tables where
  migrations : Option (List Int) := none
  observations : Option (Table ObservationRow) := none
  events : Option (Table EventRow) := none
  eventsIndex : Bool := false
  deriving DecidableEq

def schemaVersion : Int := 1

/-! ## SQLite -/

/-- The statements that are prepared. -/
inductive Query where
  | version
  | observation
  | event
  | baseline
  deriving DecidableEq, Repr

/-- The calls of SQLite, with what they bind where it matters. -/
inductive Call where
  | pragma
  | beginImmediate
  | commit
  | createMigrations
  | createObservations
  | createEvents
  | createIndex
  | insertMigration
  | prepare (query : Query)
  | bindText
  | bindInteger
  | reset
  | clearBindings
  | selectVersion
  | insertObservation (identity : PackageIdentity)
  | insertEvent (event : Event)
  | selectBaseline
  deriving DecidableEq, Repr

/-- What `check` is told about a call. -/
def Call.operation : Call → Text
  | .prepare _ => "prepare".toList
  | .bindText => "bind text".toList
  | .bindInteger => "bind integer".toList
  | .reset => "reset".toList
  | .clearBindings => "clear bindings".toList
  | .selectVersion | .insertObservation _ | .insertEvent _ | .selectBaseline => "step".toList
  | _ => "sqlite".toList

/-- How SQLite picks rowids when the largest is taken, and what it says of a call that has
failed. -/
structure Sqlite where
  picker : Picker
  errmsg : Call → Text

/-- The text `check` throws for a call that has failed. -/
def Sqlite.thrown (sqlite : Sqlite) (call : Call) : Text :=
  call.operation ++ ": ".toList ++ sqlite.errmsg call

/-- What `migrate` and `store` keep while they run: the id of the new row, and what they
have read. -/
structure Local where
  id : Int := 0
  version : Int := 0
  baseline : Bool := false
  deriving DecidableEq, Repr

/-- The texts of an identity as they are bound. -/
def bindIdentity (identity : PackageIdentity) : PackageIdentity where
  name := cString identity.name
  version := cString identity.version
  architecture := cString identity.architecture
  signature := cString identity.signature
  sourceRevision := cString identity.sourceRevision
  dependencyFingerprint := cString identity.dependencyFingerprint
  packageHash := cString identity.packageHash
  buildOptions := cString identity.buildOptions
  staticFingerprint := cString identity.staticFingerprint
  dynamicFingerprint := cString identity.dynamicFingerprint

/-- The row of an event as it is bound. -/
def eventRow (id : Int) (event : Event) : EventRow where
  observationId := id
  category := cString event.category
  action := cString event.action
  subject := cString event.subject
  detail := cString event.detail
  dynamic := if event.dynamic then 1 else 0

/-- `NOT EXISTS (SELECT 1 FROM observations WHERE name=?)`. -/
def isBaseline (table : Table ObservationRow) (name : Text) : Bool :=
  table.rows.all fun entry => entry.2.name ≠ cString name

/-- The row of an observation as it is inserted. -/
def observationRow (table : Table ObservationRow) (identity : PackageIdentity) : ObservationRow :=
  { bindIdentity identity with baseline := if isBaseline table identity.name then 1 else 0 }

/-- `COALESCE(MAX(version), 0)`. -/
def maxVersion (versions : List Int) : Int :=
  match versions with
  | [] => 0
  | first :: rest => rest.foldl max first

/-- A statement can be prepared when its table exists. -/
def Query.prepares (tables : Tables) : Query → Bool
  | .version => tables.migrations.isSome
  | .observation | .baseline => tables.observations.isSome
  | .event => tables.events.isSome

/-- What a call other than those of transactions does, to the tables its connection sees and
to what the function keeps; `none` when SQLite refuses it. -/
def perform (sqlite : Sqlite) : Call → Tables × Local → Option (Tables × Local)
  | .prepare query, (tables, kept) =>
    if query.prepares tables then some (tables, kept) else none
  | .createMigrations, (tables, kept) =>
    some ({ tables with migrations := some (tables.migrations.getD []) }, kept)
  | .createObservations, (tables, kept) =>
    if tables.observations.isSome then none
    else some ({ tables with observations := some ∅ }, kept)
  | .createEvents, (tables, kept) =>
    if tables.events.isSome then none else some ({ tables with events := some ∅ }, kept)
  | .createIndex, (tables, kept) =>
    if tables.events.isSome && !tables.eventsIndex then
      some ({ tables with eventsIndex := true }, kept)
    else none
  | .insertMigration, (tables, kept) =>
    match tables.migrations with
    | none => none
    | some versions =>
      if 1 ∈ versions then none
      else some ({ tables with migrations := some (versions ++ [1]) }, kept)
  | .selectVersion, (tables, kept) =>
    tables.migrations.map fun versions =>
      (tables, { kept with version := toInt32 (maxVersion versions) })
  | .insertObservation identity, (tables, kept) =>
    match tables.observations with
    | none => none
    | some table =>
      (table.insert sqlite.picker (observationRow table identity)).map fun inserted =>
        ({ tables with observations := some inserted.2 }, { kept with id := inserted.1 })
  -- the event refers to the row that the same transaction has just inserted
  | .insertEvent event, (tables, kept) =>
    match tables.events with
    | none => none
    | some table =>
      (table.insert sqlite.picker (eventRow kept.id event)).map fun inserted =>
        ({ tables with events := some inserted.2 }, kept)
  | .selectBaseline, (tables, kept) =>
    match tables.observations with
    | none => none
    | some table =>
      let baseline := match table.find kept.id with
        | some row => decide (row.baseline ≠ 0)
        | none => false
      some (tables, { kept with baseline := baseline })
  | _, state => some state

/-- The calls that write to the tables. -/
def Call.writes : Call → Bool
  | .createMigrations | .createObservations | .createEvents | .createIndex | .insertMigration
  | .insertObservation _ | .insertEvent _ => true
  | _ => false

variable {κ : Type} [DecidableEq κ]

/-- A call of a connection that succeeds; `none` when it cannot. -/
def execute (sqlite : Sqlite) (c : κ) (call : Call) (state : File κ Tables × Local) :
    Option (File κ Tables × Local) :=
  let (file, kept) := state
  match call with
  | .beginImmediate => (file.acquire c).map fun file => (file, kept)
  | .commit => (file.commit c).map fun file => (file, kept)
  | call =>
    match perform sqlite call (file.seen c, kept) with
    | none => none
    | some (tables, kept) =>
      -- outside a transaction nothing is written here
      if call.writes then (file.write c tables).map fun file => (file, kept)
      else some (file, kept)

/-- The calls in their order, up to the first one that fails: one that cannot succeed, or the
one after `failing` others. What is left of `failing` comes back with the state; an
exception has its text. -/
def runCalls (sqlite : Sqlite) (c : κ) :
    List Call → Option Nat → File κ Tables × Local →
      Except (Text × File κ Tables) (Option Nat × File κ Tables × Local)
  | [], failing, state => .ok (failing, state)
  | call :: rest, failing, state =>
    if failing = some 0 then .error (sqlite.thrown call, state.1)
    else
      match execute sqlite c call state with
      | none => .error (sqlite.thrown call, state.1)
      | some next => runCalls sqlite c rest (failing.map (· - 1)) next

/-! ## The migration -/

def createCalls : List Call :=
  [.createObservations, .createEvents, .createIndex, .insertMigration]

/-- The `try` block of `migrate`. -/
def migrateBody (sqlite : Sqlite) (c : κ) (failing : Option Nat) (state : File κ Tables × Local) :
    Except (Text × File κ Tables) (Option Nat × File κ Tables × Local) :=
  match runCalls sqlite c [.createMigrations, .prepare .version, .selectVersion] failing state with
  | .error thrown => .error thrown
  | .ok (failing, (file, kept)) =>
    if kept.version > schemaVersion then
      .error ("database schema is newer than this build".toList, file)
    else
      runCalls sqlite c ((if kept.version < 1 then createCalls else []) ++ [.commit]) failing
        (file, kept)

def migrate (sqlite : Sqlite) (c : κ) (failing : Option Nat) (file : File κ Tables) :
    File κ Tables × Except Text Unit :=
  match runCalls sqlite c [.pragma, .beginImmediate] failing (file, {}) with
  | .error (what, file) => (file, .error what)
  | .ok (failing, state) =>
    match migrateBody sqlite c failing state with
    | .error (what, file) => (file.rollback c, .error what)
    | .ok (_, file, _) => (file, .ok ())

/-- `Database::open`; `opened` is how `sqlite3_open_v2` ends. -/
def «open» (sqlite : Sqlite) (c : κ) (opened : Except Text Unit) (failing : Option Nat)
    (file : File κ Tables) : File κ Tables × Except Text Unit :=
  match opened with
  | .error message => (file, .error ("open database: ".toList ++ message))
  | .ok () => migrate sqlite c failing file

/-! ## Storing -/

/-- What is called for one event. -/
def eventCalls (event : Event) : List Call :=
  [.bindInteger, .bindText, .bindText, .bindText, .bindText, .bindInteger, .insertEvent event,
    .reset, .clearBindings]

/-- What is called behind `COMMIT`. -/
def baselineCalls : List Call := [.prepare .baseline, .bindInteger, .selectBaseline]

/-- The calls in the `try` block of `store`. -/
def storeCalls (identity : PackageIdentity) (events : List Event) : List Call :=
  .prepare .observation :: List.replicate 11 .bindText ++ .insertObservation identity ::
    .prepare .event :: events.flatMap eventCalls ++ .commit :: baselineCalls

def store (sqlite : Sqlite) (c : κ) (failing : Option Nat) (identity : PackageIdentity)
    (events : List Event) (file : File κ Tables) : File κ Tables × Except Text Observation :=
  match runCalls sqlite c [.beginImmediate] failing (file, {}) with
  | .error (what, file) => (file, .error what)
  | .ok (failing, state) =>
    match runCalls sqlite c (storeCalls identity events) failing state with
    | .error (what, file) => (file.rollback c, .error what)
    | .ok (_, file, kept) => (file, .ok ⟨kept.id, kept.baseline⟩)

/-! ## Comparing -/

/-- What `compare` keeps of a row for one of the two versions. -/
structure Side where
  id : Int := 0
  architecture : Text := []
  signature : Text := []
  sourceRevision : Text := []
  dependencyFingerprint : Text := []
  packageHash : Text := []
  buildOptions : Text := []
  staticFingerprint : Text := []
  dynamicFingerprint : Text := []
  deriving DecidableEq, Repr

def sideOf (entry : Int × ObservationRow) : Side where
  id := entry.1
  architecture := cString entry.2.architecture
  signature := cString entry.2.signature
  sourceRevision := cString entry.2.sourceRevision
  dependencyFingerprint := cString entry.2.dependencyFingerprint
  packageHash := cString entry.2.packageHash
  buildOptions := cString entry.2.buildOptions
  staticFingerprint := cString entry.2.staticFingerprint
  dynamicFingerprint := cString entry.2.dynamicFingerprint

/-- The variables of the loop. -/
structure Sides where
  fromSide : Side := {}
  toSide : Side := {}
  baseline : Bool := false
  deriving DecidableEq, Repr

/-- One turn of the loop. -/
def Sides.take (fromVersion : Text) (sides : Sides) (entry : Int × ObservationRow) : Sides :=
  if cString entry.2.version = fromVersion then
    { sides with fromSide := sideOf entry, baseline := entry.2.baseline ≠ 0 }
  else { sides with toSide := sideOf entry }

/-- `WHERE name=? AND version IN (?,?) ORDER BY id`. -/
def selected (observations : Table ObservationRow) (name fromVersion toVersion : Text) :
    List (Int × ObservationRow) :=
  observations.rows.filter fun entry => entry.2.name = cString name &&
    (entry.2.version = cString fromVersion || entry.2.version = cString toVersion)

/-- `char(31)`. -/
def unitSeparator : Char := '\x1f'

/-- An event as one text. -/
def eventText (row : EventRow) : Text :=
  cString (row.category ++ unitSeparator :: row.action ++ unitSeparator :: row.subject ++
    unitSeparator :: row.detail ++ unitSeparator :: Text.ofInt row.dynamic)

/-- `insert` of `std::set`, which keeps its elements in order and each once. -/
def insertText (set : List Text) (text : Text) : List Text :=
  if text ∈ set then set else set.orderedInsert (· ≤ ·) text

/-- The set of the events of an observation. -/
def eventSet (events : Table EventRow) (id : Int) : List Text :=
  ((events.rows.filter fun entry => entry.2.observationId = id).map
    fun entry => eventText entry.2).foldl insertText []

/-- `std::set_difference`. -/
def setDifference (set other : List Text) : List Text := set.filter fun text => text ∉ other

/-- What `compare` returns when both versions have an observation. -/
def deltaOf (events : Table EventRow) (a b : Side) (baseline : Bool) : VersionDelta where
  compared := true
  fromBaseline := baseline
  identityChanged := a.architecture ≠ b.architecture || a.signature ≠ b.signature ||
    a.packageHash ≠ b.packageHash || a.buildOptions ≠ b.buildOptions ||
    a.staticFingerprint ≠ b.staticFingerprint || a.dynamicFingerprint ≠ b.dynamicFingerprint
  sourceChanged := a.sourceRevision ≠ b.sourceRevision
  dependenciesChanged := a.dependencyFingerprint ≠ b.dependencyFingerprint
  addedEvents := setDifference (eventSet events b.id) (eventSet events a.id)
  removedEvents := setDifference (eventSet events a.id) (eventSet events b.id)

def compare (observations : Table ObservationRow) (events : Table EventRow)
    (name fromVersion toVersion : Text) : VersionDelta :=
  let sides := (selected observations name fromVersion toVersion).foldl (Sides.take fromVersion) {}
  if sides.fromSide.id = 0 ∨ sides.toSide.id = 0 then { compared := false }
  else deltaOf events sides.fromSide sides.toSide sides.baseline

/-- `WHERE name=? AND version<>? ORDER BY id DESC LIMIT 1`. -/
def previousVersion (observations : Table ObservationRow) (name current : Text) : Option Text :=
  (observations.rows.reverse.find? fun entry =>
    entry.2.name = cString name && entry.2.version ≠ cString current).map
      fun entry => cString entry.2.version

end ExeCell.Package.Storage
