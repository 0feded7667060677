import Mathlib.Data.List.TakeWhile
import ExeCell.Core.Text

/-!
# Reading a package archive

`archive_adapter`: the checks of paths, link targets and entries, and the two functions
that walk an archive, `list` and `read`. What libarchive answers is the input: an
`Archive` is the sequence of entries that `archive_read_next_header` returns, each with
the data that `archive_read_data` delivers for it. Both functions come with a `Meter` of
what they have taken out of the archive before they returned.
-/

namespace ExeCell.Package.ArchiveAdapter

/-- What a `const char*` other than a null pointer points to. -/
structure CString where
  chars : Text
  nulFree : '\x00' ∉ chars
  deriving DecidableEq

/-- `c_str()`, as a function that takes a `const char*` reads it. -/
def CString.ofText (text : Text) : CString where
  chars := text.takeWhile (· ≠ '\x00')
  nulFree := by
    intro h
    simpa using List.mem_takeWhile_imp h

/-! ## libarchive -/

/-- `archive_entry_filetype`. -/
inductive FileType where
  | regular
  | directory
  | symlink
  | other
  deriving DecidableEq, Repr

/-- The data of an entry; broken data ends in an error. -/
structure Body where
  bytes : Text := []
  broken : Bool := false
  deriving DecidableEq, Repr

/-- `archive_read_data`, which fills the buffer as far as there is data: what it reads
and what is left, or `none` for a negative result. -/
def Body.read (body : Body) (size : Nat) : Option (Text × Body) :=
  if body.broken ∧ body.bytes.length < size then none
  else some (body.bytes.take size, { body with bytes := body.bytes.drop size })

/-- An `archive_entry` and its data. -/
structure RawEntry where
  pathname : Option CString
  filetype : FileType := .regular
  symlink : Option CString := none
  hardlink : Option CString := none
  /-- The size, if it is set. -/
  size : Option Int := none
  mode : Nat := 0
  body : Body := {}
  deriving DecidableEq

/-- What opening and iterating an archive file gives. -/
structure Archive where
  /-- `file_size`, or the message of its error. -/
  fileSize : Except Text Nat
  allocated : Bool := true
  supported : Bool := true
  /-- The error string when the file cannot be opened. -/
  openError : Option Text := none
  entries : List RawEntry := []
  /-- The error string when an error is set at the end of the iteration. -/
  iterationError : Option Text := none

/-! ## The adapter -/

inductive Kind where
  | regular
  | symlink
  | hardlink
  deriving DecidableEq, Repr

structure Entry where
  path : Text
  kind : Kind := .regular
  linkTarget : Text := []
  size : Nat := 0
  mode : Nat := 0
  deriving DecidableEq, Repr

structure Limits where
  maxArchiveBytes : Nat := 4294967296
  maxUnpackedBytes : Nat := 1073741824
  maxEntries : Nat := 100000
  maxPathBytes : Nat := 4096
  deriving DecidableEq, Repr

def openArchive (archive : Archive) (limits : Limits) : Except Text Unit :=
  match archive.fileSize with
  | .error message => .error ("archive stat failed: ".toList ++ message)
  | .ok size =>
    if size > limits.maxArchiveBytes then
      .error "archive exceeds compressed-size limit".toList
    else if !archive.allocated then .error "archive reader allocation failed".toList
    else if !archive.supported then .error "archive format setup failed".toList
    else
      match archive.openError with
      | some message => .error ("archive open failed: ".toList ++ message)
      | none => .ok ()

/-- The loop that removes every `./` at the start. -/
def stripDotSlash : Text → Text
  | '.' :: '/' :: rest => stripDotSlash rest
  | path => path

/-- The loop over the components of a text: `rest` starts behind the last separator found,
so that `begin <= size` always holds. One turn for each separator; the fuel is one more
than the length of the text. -/
def componentsPass (rejects : Text → Bool) : Nat → Text → Bool
  | 0, _ => true
  | fuel + 1, rest =>
    if rejects (rest.takeWhile (· ≠ '/')) then false
    else
      match rest.dropWhile (· ≠ '/') with
      | [] => true
      | _ :: next => componentsPass rejects fuel next

def isDots (component : Text) : Bool := component = ['.', '.']

/-- A component that a path of an entry must not have. -/
def isUnsafe (component : Text) : Bool :=
  component = [] || component = ['.'] || isDots component

def safePath (raw : Option CString) (limit : Nat) : Except Text Text :=
  match raw with
  | none => .error "archive entry has no path".toList
  | some raw =>
    let path := stripDotSlash raw.chars
    if path = [] ∨ path.length > limit ∨ path.head? = some '/' ∨ '\x00' ∈ path then
      .error "unsafe archive path".toList
    else if componentsPass isUnsafe (path.length + 1) path then .ok path
    else .error "unsafe archive path".toList

def safeLink (raw : Option CString) (limit : Nat) : Except Text Text :=
  match raw with
  | none => .error "archive link has no target".toList
  | some raw =>
    let target := raw.chars
    if target = [] ∨ target.length > limit ∨ target.head? = some '/' ∨ '\x00' ∈ target then
      .error "unsafe archive link".toList
    else if componentsPass isDots (target.length + 1) target then .ok target
    else .error "unsafe archive link".toList

/-- The size of an entry: what is set, unless it is negative. -/
def declaredSize (raw : RawEntry) : Nat :=
  match raw.size with
  | some size => size.toNat
  | none => 0

/-- The kind, the target and the size of an entry. -/
def kindOf (raw : RawEntry) (limits : Limits) : Except Text (Kind × Text × Nat) :=
  if raw.filetype = .symlink then
    match safeLink raw.symlink limits.maxPathBytes with
    | .error message => .error message
    | .ok target => .ok (.symlink, target, declaredSize raw)
  else if raw.hardlink.isSome then
    match safeLink raw.hardlink limits.maxPathBytes with
    | .error message => .error message
    | .ok target => .ok (.hardlink, target, declaredSize raw)
  else if raw.filetype = .regular then .ok (.regular, [], declaredSize raw)
  -- a directory keeps the kind that an entry starts with
  else if raw.filetype = .directory then .ok (.regular, [], 0)
  else .error "unsupported archive entry type".toList

def entryOf (raw : RawEntry) (limits : Limits) : Except Text Entry :=
  match safePath raw.pathname limits.maxPathBytes with
  | .error message => .error message
  | .ok path =>
    match kindOf raw limits with
    | .error message => .error message
    | .ok (kind, target, size) =>
      -- 06000, the setuid and the setgid bit
      if raw.mode &&& 3072 ≠ 0 then .error "setuid or setgid archive entry rejected".toList
      else .ok { path := path, kind := kind, linkTarget := target, size := size, mode := raw.mode }

/-- What a function has taken out of the archive. -/
structure Meter where
  headers : Nat := 0
  bytes : Nat := 0
  deriving DecidableEq, Repr

def Meter.header (meter : Meter) : Meter := { meter with headers := meter.headers + 1 }

def Meter.pull (meter : Meter) (bytes : Nat) : Meter := { meter with bytes := meter.bytes + bytes }

/-- The size of the buffer of `discard_entry`. -/
def bufferSize : Nat := 65536

/-- How a call of `discard_entry` ends: its result, the new value of `total`, and the
number of bytes it has read. -/
structure Discarded where
  ok : Bool
  total : Nat
  bytes : Nat := 0
  deriving DecidableEq, Repr

/-- The loop of `discard_entry`. A turn that goes on has read something, so that one turn
more than there are bytes is enough fuel. The check keeps `total` at or below the limit,
and with it within 64 bits. -/
def discardLoop (limit : Nat) : Nat → Body → Nat → Discarded
  | 0, _, total => { ok := true, total := total }
  | fuel + 1, body, total =>
    match body.read bufferSize with
    | none => { ok := false, total := total }
    | some (chunk, rest) =>
      if chunk = [] then { ok := true, total := total }
      else if chunk.length > limit - min total limit then
        { ok := false, total := total, bytes := chunk.length }
      else
        let later := discardLoop limit fuel rest (total + chunk.length)
        { later with bytes := chunk.length + later.bytes }

def discardEntry (body : Body) (total limit : Nat) : Discarded :=
  discardLoop limit (body.bytes.length + 1) body total

/-- The loop of `list`. -/
def listLoop (limits : Limits) :
    List RawEntry → List Entry → Nat → Meter → Except Text (List Entry) × Meter
  | [], result, _, meter => (.ok result, meter)
  | raw :: entries, result, unpacked, meter =>
    if result.length ≥ limits.maxEntries then
      (.error "archive entry-count limit exceeded".toList, meter.header)
    else
      match entryOf raw limits with
      | .error message => (.error message, meter.header)
      | .ok entry =>
        if entry.size > limits.maxUnpackedBytes - min unpacked limits.maxUnpackedBytes then
          (.error "archive unpacked-size limit exceeded".toList, meter.header)
        else
          let discarded := discardEntry raw.body (unpacked + entry.size) limits.maxUnpackedBytes
          if discarded.ok then
            listLoop limits entries (result ++ [entry]) discarded.total
              (meter.header.pull discarded.bytes)
          else
            (.error "archive unpacked-size limit exceeded".toList,
              meter.header.pull discarded.bytes)

/-- `list`, with what it takes out of the archive. -/
def listMetered (archive : Archive) (limits : Limits) : Except Text (List Entry) × Meter :=
  match openArchive archive limits with
  | .error message => (.error message, {})
  | .ok () =>
    match listLoop limits archive.entries [] 0 {} with
    | (.error message, meter) => (.error message, meter)
    | (.ok result, meter) =>
      match archive.iterationError with
      | some message => (.error ("archive iteration failed: ".toList ++ message), meter)
      | none => (.ok result, meter)

def list (archive : Archive) (limits : Limits := {}) : Except Text (List Entry) :=
  (listMetered archive limits).1

/-- The loop of `read` over the data of the wanted entry, of which `missing` bytes are
still to come. Every turn reads something; the fuel is one more than the size. -/
def fillLoop : Nat → Body → Nat → Text → Except Text Text × Nat
  | 0, _, _, result => (.ok result, 0)
  | fuel + 1, body, missing, result =>
    if missing = 0 then (.ok result, 0)
    else
      match body.read missing with
      | none => (.error "archive entry read failed".toList, 0)
      | some (chunk, rest) =>
        if chunk = [] then (.error "archive entry read failed".toList, 0)
        else
          let later := fillLoop fuel rest (missing - chunk.length) (result ++ chunk)
          (later.1, chunk.length + later.2)

/-- The loop of `read`. -/
def readLoop (limits : Limits) (wanted : Text) (maxBytes : Nat) :
    List RawEntry → Meter → Except Text Text × Meter
  | [], meter => (.error ("archive entry not found: ".toList ++ wanted), meter)
  | raw :: entries, meter =>
    match entryOf raw limits with
    | .error message => (.error message, meter.header)
    | .ok entry =>
      if entry.path ≠ wanted then
        let discarded := discardEntry raw.body 0 limits.maxUnpackedBytes
        if discarded.ok then
          readLoop limits wanted maxBytes entries (meter.header.pull discarded.bytes)
        else (.error "archive entry read failed".toList, meter.header.pull discarded.bytes)
      else if entry.kind ≠ .regular ∨ entry.size > maxBytes then
        (.error "archive entry is not bounded regular data".toList, meter.header)
      else
        let filled := fillLoop (entry.size + 1) raw.body entry.size []
        (filled.1, meter.header.pull filled.2)

/-- `read`, with what it takes out of the archive. -/
def readMetered (archive : Archive) (wanted : Text) (maxBytes : Nat) (limits : Limits) :
    Except Text Text × Meter :=
  match safePath (some (CString.ofText wanted)) limits.maxPathBytes with
  | .error message => (.error message, {})
  | .ok safe =>
    match openArchive archive limits with
    | .error message => (.error message, {})
    | .ok () => readLoop limits safe maxBytes archive.entries {}

def read (archive : Archive) (wanted : Text) (maxBytes : Nat) (limits : Limits := {}) :
    Except Text Text :=
  (readMetered archive wanted maxBytes limits).1

def validatePath (value : Text) (maxBytes : Nat := 4096) : Except Text Text :=
  safePath (some (CString.ofText value)) maxBytes

def validateLinkTarget (value : Text) (maxBytes : Nat := 4096) : Except Text Text :=
  safeLink (some (CString.ofText value)) maxBytes

end ExeCell.Package.ArchiveAdapter
