import ExeCell.Sandbox.Capture
import ExeCell.Sandbox.Config
import ExeCell.Package.Unpack

/-!
# Inspecting a package

The first two stages of `package::scan`: `inspect`, which reads the metadata and the list
of files out of the archive and has the signature verified, and the loop that looks for
executables among the files. The loop takes the first 128 files only and reads no file of
more than a mebibyte; within these bounds `discover_complete` says that it misses nothing.
-/

namespace ExeCell.Package

open ArchiveAdapter
open Sandbox (Config Captured defaultPackageSyscalls)

/-! ## The metadata -/

/-- `value`: the rest of the line behind the first occurrence of the key. -/
def value (text key : Text) : Text :=
  match Search.afterFirst (key ++ " = ".toList) text with
  | none => []
  | some rest => rest.takeWhile (· ≠ '\n')

/-- The loop of `values`, which goes on right behind the label. The fuel is the length of
the text. -/
def valuesLoop (label : Text) : Nat → Text → List Text
  | 0, _ => []
  | fuel + 1, text =>
    match Search.afterFirst label text with
    | none => []
    | some rest => rest.takeWhile (· ≠ '\n') :: valuesLoop label fuel rest

def values (text key : Text) : List Text :=
  valuesLoop (key ++ " = ".toList) text.length text

/-- `fingerprint`: the FNV hash in decimal digits. -/
def fingerprint (value : Text) : Text :=
  let hash := value.foldl
    (fun (hash : UInt64) c => (hash ^^^ UInt64.ofNat c.toNat) * 1099511628211) 1469598103934665603
  Text.ofNat hash.toNat

/-- The endings that `package_name` knows. -/
def packageSuffixes : List Text :=
  [".pkg.tar.zst".toList, ".pkg.tar.xz".toList, ".pkg.tar.gz".toList, ".pkg.tar.bz2".toList,
    ".pkg.tar.lrz".toList, ".pkg.tar.lzo".toList, ".pkg.tar.lz4".toList, ".pkg.tar.lz".toList]

def packageName (path : Text) : Bool := packageSuffixes.any fun ending => ending.isSuffixOf path

/-- `package::Options`, as far as the stages modelled here read it. -/
structure ScanOptions where
  workers : Nat := 4
  /-- In seconds. -/
  timeout : Nat := 30
  network : Text := "off".toList
  cgroupRoot : Text := []
  deriving DecidableEq, Repr

structure Metadata where
  package : Text
  name : Text := []
  version : Text := []
  architecture : Text := []
  dependencies : List Text := []
  files : List Text := []
  scripts : List Text := []
  hooks : List Text := []
  executables : List Text := []
  executableFingerprints : List Text := []
  signature : Text := []
  deriving DecidableEq, Repr

/-- The fields that `.PKGINFO` gives. -/
def Metadata.identify (metadata : Metadata) (info : Text) : Metadata :=
  { metadata with
    name := value info "pkgname".toList
    version := value info "pkgver".toList
    architecture := value info "arch".toList
    dependencies := values info "depend".toList }

def isScript (path : Text) : Bool :=
  path = ".INSTALL".toList || "/.INSTALL".toList.isSuffixOf path

def isHook (path : Text) : Bool :=
  ".hook".toList.isSuffixOf path || Search.occurs "/hooks/".toList path

/-- One turn of the loop over the listing. -/
def Metadata.addFile (metadata : Metadata) (path : Text) : Metadata :=
  { metadata with
    files := metadata.files ++ [path]
    scripts := if isScript path then metadata.scripts ++ [path] else metadata.scripts
    hooks := if isHook path then metadata.hooks ++ [path] else metadata.hooks }

/-! ## `inspect` -/

/-- What `inspect` finds on the host. -/
structure PackageHost where
  regularFile : Bool := true
  symlink : Bool := false
  archive : Archive
  signatureExists : Bool := true
  signatureSymlink : Bool := false
  /-- `/usr/bin/gpgv` can be executed. -/
  gpgv : Bool := true
  pubringGpg : Bool := true
  pubringKbx : Bool := false
  /-- `run_captured`. -/
  capture : List Text → Config → Captured

/-- The sandbox in which the signature is verified. -/
def verifyConfig (options : ScanOptions) : Config where
  userNamespace := true
  mountNamespace := true
  networkNamespace := true
  readOnlyRoot := true
  cleanEnvironment := true
  cpuSeconds := options.timeout
  maxProcesses := 32
  maxFileBytes := 16 * 1024 * 1024
  seccompAllowlist := defaultPackageSyscalls

/-- A query of `inspect`, with the answer. -/
inductive InspectStep where
  /-- Whether this is a regular file and no symbolic link. -/
  | statPackage (path : Text) (regular : Bool)
  /-- `archive_adapter::read`. -/
  | readEntry (archive path : Text) (content : Except Text Text)
  /-- `archive_adapter::list`. -/
  | listArchive (archive : Text) (listing : Except Text (List Entry))
  /-- Whether this exists and is no symbolic link. -/
  | statSignature (path : Text) (present : Bool)
  /-- Whether `gpgv` can be executed, or a keyring exists. -/
  | find (path : Text) (found : Bool)
  /-- `run_captured`. -/
  | verify (command : List Text) (config : Config) (verified : Captured)

/-- A query in front of what the code goes on with. -/
def ask {α : Type} (step : InspectStep) (rest : List InspectStep × α) : List InspectStep × α :=
  (step :: rest.1, rest.2)

def gpgvPath : Text := "/usr/bin/gpgv".toList

/-- The detached signature of a package. -/
def signaturePath (package : Text) : Text := package ++ ".sig".toList

def keyring (host : PackageHost) : Text :=
  if host.pubringGpg then "/etc/pacman.d/gnupg/pubring.gpg".toList
  else "/etc/pacman.d/gnupg/pubring.kbx".toList

def verifyCommand (host : PackageHost) (package : Text) : List Text :=
  [gpgvPath, "--keyring".toList, keyring host, signaturePath package, package]

/-- The checks of the signature at the end of `inspect`. -/
def verifySignature (host : PackageHost) (package : Text) (options : ScanOptions) :
    List InspectStep × Except Text Unit :=
  ask (.statSignature (signaturePath package)
      (host.signatureExists && !host.signatureSymlink)) <|
    if !host.signatureExists || host.signatureSymlink then
      ([], .error "signature verification failed: detached signature missing".toList)
    else ask (.find gpgvPath host.gpgv) <|
      if !host.gpgv then
        ([], .error "signature verification unavailable: gpgv missing".toList)
      else ask (.find (keyring host) (host.pubringGpg || host.pubringKbx)) <|
        if !host.pubringGpg && !host.pubringKbx then
          ([], .error "signature verification unavailable: Arch keyring missing".toList)
        else
          let command := verifyCommand host package
          let verify := host.capture command (verifyConfig options)
          ask (.verify command (verifyConfig options) verify) <|
            if verify.timedOut then ([], .error "signature verification timed out".toList)
            else if verify.status ≠ 0 then ([], .error "signature verification failed".toList)
            else ([], .ok ())

/-- The part of `package::Result` that `inspect` writes. -/
structure Inspected where
  ok : Bool := false
  error : Text := []
  metadata : Metadata
  deriving DecidableEq, Repr

/-- `inspect`, with its queries. -/
def inspectRun (host : PackageHost) (package : Text) (options : ScanOptions) :
    List InspectStep × Inspected :=
  let metadata : Metadata := { package := package }
  if !packageName (LexicalPath.filename package) then
    ([], { error := "unsupported package: expected .pkg.tar.*".toList, metadata := metadata })
  else ask (.statPackage package (host.regularFile && !host.symlink)) <|
    if !host.regularFile || host.symlink then
      ([], { error := "package does not exist".toList, metadata := metadata })
    else
      let info := read host.archive ".PKGINFO".toList 1048576
      ask (.readEntry package ".PKGINFO".toList info) <|
        match info with
        | .error message => ([], { error := message, metadata := metadata })
        | .ok info =>
          let metadata := metadata.identify info
          if metadata.name = [] ∨ metadata.version = [] ∨ metadata.architecture = [] then
            ([], { error := "package metadata missing required identity fields".toList
                   metadata := metadata })
          else if metadata.architecture ≠ "x86_64".toList ∧
              metadata.architecture ≠ "any".toList then
            ([], { error := "unsupported architecture: ".toList ++ metadata.architecture
                   metadata := metadata })
          else
            let listing := list host.archive
            ask (.listArchive package listing) <|
              match listing with
              | .error message => ([], { error := message, metadata := metadata })
              | .ok entries =>
                let metadata := (entries.map Entry.path).foldl Metadata.addFile metadata
                let (steps, verified) := verifySignature host package options
                match verified with
                | .error message => (steps, { error := message, metadata := metadata })
                | .ok () =>
                  (steps,
                    { ok := true, metadata := { metadata with signature := "valid".toList } })

/-- What `inspect` returns. -/
def inspect (host : PackageHost) (package : Text) (options : ScanOptions) : Inspected :=
  (inspectRun host package options).2

/-! ## The discovery of executables -/

def maxCommandOutput : Nat := 1048576

def isElf (content : Text) : Bool := ['\x7f', 'E', 'L', 'F'].isPrefixOf content

/-- The data begins with the magic of an ELF file or with `#!`. -/
def isExecutable (content : Text) : Bool := isElf content || ['#', '!'].isPrefixOf content

/-- One turn of the loop of `scan`, without the staging of the file. -/
def discoverStep (archive : Archive) (metadata : Metadata) (path : Text) : Metadata :=
  match read archive path maxCommandOutput with
  | .error _ => metadata
  | .ok content =>
    if isExecutable content then
      { metadata with
        executables := metadata.executables ++ [path]
        executableFingerprints :=
          metadata.executableFingerprints ++ [path ++ ':' :: fingerprint content] }
    else metadata

def executableLimit : Nat := 128

def discover (archive : Archive) (metadata : Metadata) : Metadata :=
  (metadata.files.take (min metadata.files.length executableLimit)).foldl (discoverStep archive)
    metadata

/-! ## What is accepted and what is found -/

/-- What the checks of `inspect` let through. -/
structure Admitted (host : PackageHost) (package : Text) (options : ScanOptions) (info : Text)
    (entries : List Entry) : Prop where
  suffix : packageName (LexicalPath.filename package) = true
  regularFile : host.regularFile = true
  symlink : host.symlink = false
  readable : read host.archive ".PKGINFO".toList 1048576 = .ok info
  named : value info "pkgname".toList ≠ []
  versioned : value info "pkgver".toList ≠ []
  supported : value info "arch".toList = "x86_64".toList ∨ value info "arch".toList = "any".toList
  listing : list host.archive = .ok entries
  signature : (verifySignature host package options).2 = .ok ()

section Inspect

variable {host : PackageHost} {package : Text} {options : ScanOptions} {metadata : Metadata}
  {archive : Archive}

theorem foldl_addFile (paths : List Text) (metadata : Metadata) :
    (paths.foldl Metadata.addFile metadata).files = metadata.files ++ paths ∧
      (paths.foldl Metadata.addFile metadata).executables = metadata.executables := by
  induction paths generalizing metadata with
  | nil => simp
  | cons path paths ih =>
    obtain ⟨hfiles, hexecutables⟩ := ih (metadata.addFile path)
    rw [List.foldl_cons, hfiles, hexecutables]
    simp [Metadata.addFile]

/-- The three fields that identify an accepted package are there. -/
theorem Admitted.identity {info : Text} {entries : List Entry}
    (h : Admitted host package options info entries) :
    ¬ (value info "pkgname".toList = [] ∨ value info "pkgver".toList = [] ∨
      value info "arch".toList = []) := by
  rintro (hname | hversion | harchitecture)
  · exact h.named hname
  · exact h.versioned hversion
  · rcases h.supported with heq | heq
    · rw [harchitecture] at heq
      cases heq
    · rw [harchitecture] at heq
      cases heq

theorem Admitted.not_unsupported {info : Text} {entries : List Entry}
    (h : Admitted host package options info entries) :
    ¬ (value info "arch".toList ≠ "x86_64".toList ∧ value info "arch".toList ≠ "any".toList) := by
  rintro ⟨hx86, hany⟩
  exact h.supported.elim hx86 hany

/-- The queries and the result for a package that the checks let through. -/
theorem inspectRun_of_admitted {info : Text} {entries : List Entry}
    (h : Admitted host package options info entries) :
    inspectRun host package options =
      (.statPackage package true :: .readEntry package ".PKGINFO".toList (.ok info) ::
          .listArchive package (.ok entries) :: (verifySignature host package options).1,
        { ok := true
          metadata :=
            { (entries.map Entry.path).foldl Metadata.addFile
                (({ package := package } : Metadata).identify info) with
              signature := "valid".toList } }) := by
  rw [inspectRun]
  dsimp only
  rw [if_neg (by simp [h.suffix]), if_neg (by simp [h.regularFile, h.symlink]), h.readable]
  dsimp only
  rw [Metadata.identify, if_neg h.identity, if_neg h.not_unsupported, h.listing]
  dsimp only
  rw [h.signature, h.regularFile, h.symlink]
  rfl

theorem inspect_of_admitted {info : Text} {entries : List Entry}
    (h : Admitted host package options info entries) :
    inspect host package options =
      { ok := true
        metadata :=
          { (entries.map Entry.path).foldl Metadata.addFile
              (({ package := package } : Metadata).identify info) with
            signature := "valid".toList } } := by
  rw [inspect, inspectRun_of_admitted h]

/-- A signature that passes the checks was there, and `gpgv` accepted it. -/
theorem verifySignature_of_ok (h : (verifySignature host package options).2 = .ok ()) :
    ∃ verified,
      (verifySignature host package options).1 =
        [.statSignature (signaturePath package) true, .find gpgvPath true,
          .find (keyring host) true,
          .verify (verifyCommand host package) (verifyConfig options) verified] ∧
      verified = host.capture (verifyCommand host package) (verifyConfig options) ∧
      verified.status = 0 ∧ verified.timedOut = false := by
  rw [verifySignature] at h ⊢
  split at h
  · cases h
  rename_i hpresent
  rw [if_neg hpresent]
  split at h
  · cases h
  rename_i hgpgv
  rw [if_neg hgpgv]
  split at h
  · cases h
  rename_i hkeyring
  rw [if_neg hkeyring]
  dsimp only at h ⊢
  split at h
  · cases h
  rename_i htime
  rw [if_neg htime]
  split at h
  · cases h
  rename_i hstatus
  rw [if_neg hstatus]
  refine ⟨_, ?_, rfl, not_not.mp hstatus, by simpa using htime⟩
  simp only [Bool.or_eq_true, Bool.not_eq_true', not_or, Bool.not_eq_false, Bool.not_eq_true]
    at hpresent hgpgv
  have hfound : (host.pubringGpg || host.pubringKbx) = true := by
    rw [← Bool.not_eq_false, Bool.or_eq_false_iff]
    rintro ⟨hgpg, hkbx⟩
    exact hkeyring (by rw [hgpg, hkbx]; rfl)
  rw [hpresent.1, hpresent.2, hgpgv, hfound]
  rfl

theorem admitted_of_inspect (h : (inspect host package options).ok = true) :
    ∃ info entries, Admitted host package options info entries := by
  rw [inspect, inspectRun] at h
  dsimp only at h
  split at h
  · cases h
  rename_i hpackage
  split at h
  · cases h
  rename_i hfile
  split at h
  · cases h
  rename_i info hinfo
  split at h
  · cases h
  rename_i hidentity
  split at h
  · cases h
  rename_i hsupported
  split at h
  · cases h
  rename_i entries hlisting
  split at h
  · cases h
  rename_i hsignature
  simp only [not_or] at hidentity
  simp only [Bool.or_eq_true, Bool.not_eq_true', not_or, Bool.not_eq_false, Bool.not_eq_true]
    at hfile hpackage
  refine ⟨info, entries, hpackage, hfile.1, hfile.2, hinfo, hidentity.1, hidentity.2.1, ?_,
    hlisting, hsignature⟩
  by_contra hneither
  exact hsupported (not_or.mp hneither)

/-- The files of an accepted package are the paths of its listing, and no executable is
known yet. -/
theorem inspect_ok (h : (inspect host package options).ok = true) :
    ∃ entries, list host.archive = .ok entries ∧
      (inspect host package options).metadata.files = entries.map Entry.path ∧
      (inspect host package options).metadata.executables = [] := by
  obtain ⟨info, entries, hadmitted⟩ := admitted_of_inspect h
  obtain ⟨hfiles, hexecutables⟩ := foldl_addFile (entries.map Entry.path)
    (({ package := package } : Metadata).identify info)
  rw [inspect_of_admitted hadmitted]
  exact ⟨entries, hadmitted.listing, hfiles, hexecutables⟩

/-- What makes the loop keep a path. -/
def Keeps (archive : Archive) (path : Text) : Prop :=
  ∃ content, read archive path maxCommandOutput = .ok content ∧ isExecutable content = true

theorem mem_discoverStep {path file : Text} :
    path ∈ (discoverStep archive metadata file).executables ↔
      path ∈ metadata.executables ∨ (path = file ∧ Keeps archive file) := by
  rw [discoverStep, Keeps]
  cases read archive file maxCommandOutput with
  | error message => simp
  | ok content =>
    by_cases hexecutable : isExecutable content = true
    · simp [hexecutable]
    · simp [hexecutable]

theorem mem_discover {path : Text} :
    path ∈ (discover archive metadata).executables ↔
      path ∈ metadata.executables ∨
        (path ∈ metadata.files.take executableLimit ∧ Keeps archive path) := by
  have hloop : ∀ (files : List Text) (metadata : Metadata),
      path ∈ (files.foldl (discoverStep archive) metadata).executables ↔
        path ∈ metadata.executables ∨ (path ∈ files ∧ Keeps archive path) := by
    intro files
    induction files with
    | nil => simp
    | cons file files ih =>
      intro metadata
      rw [List.foldl_cons, ih, mem_discoverStep, List.mem_cons]
      by_cases hfile : path = file
      · simp only [hfile, true_and, true_or]
        tauto
      · simp [hfile]
  rw [discover, hloop, Nat.min_comm, ← List.take_eq_take_min]

/-- A regular file, not a link and not a directory. -/
def IsFile (raw : RawEntry) : Prop := raw.filetype = .regular ∧ raw.hardlink = none

/-- Every executable file of the archive has been found. -/
def DiscoversAll (archive : Archive) (metadata : Metadata) : Prop :=
  ∀ raw ∈ archive.entries, ∀ entry, entryOf raw {} = .ok entry → IsFile raw →
    isExecutable raw.body.bytes = true → entry.path ∈ (discover archive metadata).executables

/-- A file is accepted with the size that its header declares. -/
theorem entryOf_isFile {limits : Limits} {raw : RawEntry} {entry : Entry} (hfile : IsFile raw)
    (h : entryOf raw limits = .ok entry) : entry.kind = .regular ∧ entry.size = declaredSize raw := by
  obtain ⟨hregular, hunlinked⟩ := hfile
  have hkind := (entryOf_ok_iff.mp h).2.1
  rw [kindOf, hregular, hunlinked] at hkind
  have hparts := Except.ok.inj hkind
  simp only [Prod.mk.injEq] at hparts
  exact ⟨hparts.1.symm, hparts.2.2.symm⟩

/-- In a package that `inspect` accepts, the loop finds every executable file that stands
among the first 128, has at most a mebibyte of data, and as much as its header declares,
and is the first entry with its path. -/
theorem discover_complete {front rest : List RawEntry} {raw : RawEntry} {entry : Entry}
    (h : (inspect host package options).ok = true)
    (hentries : host.archive.entries = front ++ raw :: rest) (hposition : front.length < 128)
    (hentry : entryOf raw {} = .ok entry)
    (hfirst : ∀ other ∈ front, isAt {} entry.path other = false) (hfile : IsFile raw)
    (hsized : raw.size = some (raw.body.bytes.length : Int))
    (hbound : raw.body.bytes.length ≤ 1048576) (hexecutable : isExecutable raw.body.bytes = true) :
    entry.path ∈ (discover host.archive (inspect host package options).metadata).executables := by
  obtain ⟨entries, hlist, hfiles, _⟩ := inspect_ok h
  have haccepted := (list_ok_iff.mp hlist).2.1
  obtain ⟨hkind, hsize⟩ := entryOf_isFile hfile hentry
  have hwhole : entry.size = raw.body.bytes.length := by
    rw [hsize, declaredSize, hsized]
    rfl
  apply mem_discover.mpr
  refine Or.inr ⟨?_, raw.body.bytes, ?_, hexecutable⟩
  · -- the listing has the entry at the same place
    have hplace : entries[front.length]? = some entry := by
      have hsame := congrArg (·[front.length]?) haccepted
      rw [hentries] at hsame
      simpa [hentry, eq_comm] using hsame
    rw [hfiles, ← List.map_take]
    apply List.mem_map_of_mem
    apply List.mem_of_getElem? (i := front.length)
    rw [List.getElem?_take]
    exact (if_pos hposition).trans hplace
  · have hisFirst : IsFirst {} entry.path host.archive.entries raw entry :=
      ⟨front, rest, hentries, hentry, rfl, hfirst⟩
    apply (read_ok_iff hlist hisFirst _).mpr
    exact ⟨hkind, by rw [hwhole]; exact hbound, hwhole.le, by rw [hwhole, List.take_length]⟩

end Inspect

/-! ## Packages of plain files -/

section Files

variable {files : List (Text × Text)}

/-- An archive of regular files, given by their paths and their data. -/
def filesArchive (files : List (Text × Text)) : Archive where
  fileSize := .ok 10240
  entries := files.map fun file => fileEntry file.1 file.2

/-- The listing of such an archive. -/
def filesListing (files : List (Text × Text)) : List Entry :=
  files.map fun file => { path := file.1, size := file.2.length, mode := 420 }

def filesBytes (files : List (Text × Text)) : Nat := (files.map fun file => file.2.length).sum

/-- The paths are as `list` wants them. -/
def PlainFiles (files : List (Text × Text)) : Prop :=
  ∀ file ∈ files, '\x00' ∉ file.1 ∧ Canonical file.1 4096

theorem accepted_filesArchive (h : PlainFiles files) :
    Accepted {} (filesArchive files).entries (filesListing files) := by
  rw [Accepted, filesArchive, filesListing, List.map_map, List.map_map]
  apply List.map_congr_left
  intro file hfile
  obtain ⟨hnul, hcanonical⟩ := h file hfile
  exact @entryOf_fileEntry {} _ file.2 hnul hcanonical

theorem list_filesArchive (h : PlainFiles files) (hcount : files.length ≤ 100000)
    (hbytes : 2 * filesBytes files ≤ 1073741824) :
    list (filesArchive files) = .ok (filesListing files) := by
  have hplain : ∀ raw ∈ (filesArchive files).entries,
      PlainEntry {} raw ∧ raw.filetype ≠ .directory := by
    intro raw hraw
    obtain ⟨file, hfile, rfl⟩ := List.mem_map.mp hraw
    obtain ⟨hnul, hcanonical⟩ := h file hfile
    refine ⟨plainEntry_file file.2 hnul hcanonical, ?_⟩
    intro hdirectory
    cases hdirectory
  have haccepted := accepted_filesArchive h
  obtain ⟨entries, haccepted', hcharges⟩ := accepted_of_files hplain
  obtain rfl := haccepted.unique haccepted'
  have hsum : ((filesArchive files).entries.map fun raw => raw.body.bytes.length).sum =
      filesBytes files := by
    rw [filesArchive, List.map_map]
    rfl
  refine list_ok_iff.mpr ⟨⟨rfl, rfl⟩, haccepted, fun raw hraw => (hplain raw hraw).1.whole, ?_, ?_⟩
  · rw [filesArchive, List.length_map]
    exact hcount
  · rw [hcharges, hsum]
    exact hbytes

def packageInfo : Text := "pkgname = tool\npkgver = 1.0-1\narch = x86_64\n".toList

/-- The files of a package whose metadata comes first. -/
def packageFiles (files : List (Text × Text)) : List (Text × Text) :=
  (".PKGINFO".toList, packageInfo) :: files

/-- A package with a good signature. -/
def packageHost (files : List (Text × Text)) : PackageHost where
  archive := filesArchive (packageFiles files)
  capture _ _ := { status := 0 }

def packagePath : Text := "tool-1.0-1-x86_64.pkg.tar.zst".toList

theorem plainFiles_packageFiles (h : PlainFiles files) : PlainFiles (packageFiles files) := by
  have hinfo : '\x00' ∉ ".PKGINFO".toList ∧ Canonical ".PKGINFO".toList 4096 := by decide
  exact List.forall_mem_cons.mpr ⟨hinfo, h⟩

theorem inspect_packageHost (h : PlainFiles files) (hcount : files.length < 100000)
    (hbytes : 2 * filesBytes (packageFiles files) ≤ 1073741824) :
    (inspect (packageHost files) packagePath {}).ok = true := by
  have hlist := list_filesArchive (plainFiles_packageFiles h) hcount hbytes
  have hinfo : read (packageHost files).archive ".PKGINFO".toList 1048576 = .ok packageInfo := by
    apply (@read_ok_iff {} ".PKGINFO".toList 1048576
      { path := ".PKGINFO".toList, size := packageInfo.length, mode := 420 } _ _
      (fileEntry ".PKGINFO".toList packageInfo) hlist ⟨[], _, rfl, by rfl, rfl, by simp⟩ _).mpr
    exact ⟨rfl, by decide, by decide, by rfl⟩
  have hadmitted : Admitted (packageHost files) packagePath {} packageInfo
      (filesListing (packageFiles files)) :=
    ⟨by decide, rfl, rfl, hinfo, by decide, by decide, Or.inl (by decide), hlist, rfl⟩
  rw [inspect_of_admitted hadmitted]

end Files

/-! ## What is missed -/

def toolPath : Text := "usr/bin/tool".toList

theorem plainFile_tool : '\x00' ∉ toolPath ∧ Canonical toolPath 4096 := by
  decide

/-- A small script right behind the metadata is found. -/
theorem discover_tool :
    (inspect (packageHost [(toolPath, "#!/bin/sh\n".toList)]) packagePath {}).ok = true ∧
    toolPath ∈ (discover (packageHost [(toolPath, "#!/bin/sh\n".toList)]).archive
      (inspect (packageHost [(toolPath, "#!/bin/sh\n".toList)]) packagePath
        {}).metadata).executables := by
  have hplain : PlainFiles [(toolPath, "#!/bin/sh\n".toList)] :=
    List.forall_mem_singleton.mpr plainFile_tool
  have hok := inspect_packageHost hplain (by decide) (by decide)
  refine ⟨hok, ?_⟩
  exact @discover_complete _ _ _ [fileEntry ".PKGINFO".toList packageInfo] []
    (fileEntry toolPath "#!/bin/sh\n".toList) { path := toolPath, size := 10, mode := 420 } hok
    rfl (by decide) (by rfl) (by decide) ⟨rfl, rfl⟩ rfl (by decide) (by decide)

/-- A script with this many bytes behind its first two. -/
def largeScript (size : Nat) : Text := '#' :: '!' :: List.replicate size 'x'

theorem largeScript_missed {size : Nat} (hlarge : 1048576 ≤ size) (hfits : size ≤ 2097152) :
    (inspect (packageHost [(toolPath, largeScript size)]) packagePath {}).ok = true ∧
      ¬ DiscoversAll (packageHost [(toolPath, largeScript size)]).archive
        (inspect (packageHost [(toolPath, largeScript size)]) packagePath {}).metadata := by
  have hlength : (largeScript size).length = size + 2 := by
    rw [largeScript, List.length_cons, List.length_cons, List.length_replicate]
  have hplain : PlainFiles [(toolPath, largeScript size)] :=
    List.forall_mem_singleton.mpr plainFile_tool
  have hbytes : 2 * filesBytes (packageFiles [(toolPath, largeScript size)]) ≤ 1073741824 := by
    have hinfo : packageInfo.length = 44 := by decide
    have hsum : filesBytes (packageFiles [(toolPath, largeScript size)]) =
        packageInfo.length + ((largeScript size).length + 0) := rfl
    rw [hsum, hinfo, hlength]
    omega
  have hok := inspect_packageHost hplain (by simp) hbytes
  refine ⟨hok, ?_⟩
  intro hall
  have hentry := @entryOf_fileEntry {} toolPath (largeScript size) plainFile_tool.1 plainFile_tool.2
  have hmem : toolPath ∈ _ := hall _ (List.mem_cons_of_mem _ (List.mem_singleton.mpr rfl)) _ hentry
    ⟨rfl, rfl⟩ rfl
  obtain ⟨entries, hlist, _, hnone⟩ := inspect_ok hok
  rcases mem_discover.mp hmem with hknown | ⟨_, content, hread, _⟩
  · rw [hnone] at hknown
    cases hknown
  · have hfirst : IsFirst {} toolPath (packageHost [(toolPath, largeScript size)]).archive.entries
        (fileEntry toolPath (largeScript size))
        { path := toolPath, size := (largeScript size).length, mode := 420 } :=
      ⟨[fileEntry ".PKGINFO".toList packageInfo], [], rfl, hentry, rfl, by decide⟩
    have hsize := ((read_ok_iff hlist hfirst content).mp hread).2.1
    have hbound : (largeScript size).length ≤ 1048576 := hsize
    omega

/-- Empty files. -/
def fillers (count : Nat) : List (Text × Text) :=
  (List.range count).map fun i => (List.replicate (i + 1) 'a', [])

/-- Empty files in front of a script. -/
def crowded (count : Nat) : List (Text × Text) :=
  fillers count ++ [(toolPath, "#!/bin/sh\n".toList)]

section Crowded

variable {count : Nat}

theorem plainFiles_crowded (h : count ≤ 4096) : PlainFiles (crowded count) := by
  intro file hfile
  rcases List.mem_append.mp hfile with hfront | htool
  · obtain ⟨i, hi, rfl⟩ := List.mem_map.mp hfront
    have hless : i < count := List.mem_range.mp hi
    have hsplit : (List.replicate (i + 1) 'a').splitOn '/' = [List.replicate (i + 1) 'a'] :=
      List.splitOn_eq_singleton (by simp)
    refine ⟨by simp, by simp, ?_, by simp [List.replicate_succ], ?_⟩
    · rw [List.length_replicate]
      omega
    · rw [hsplit]
      simp [List.replicate_succ]
  · rw [List.mem_singleton.mp htool]
    exact plainFile_tool

theorem filesBytes_crowded : filesBytes (packageFiles (crowded count)) = 54 := by
  have hfillers : ((fillers count).map fun file => file.2.length).sum = 0 := by
    simp [fillers, Function.comp_def]
  have hinfo : packageInfo.length = 44 := by decide
  have hscript : "#!/bin/sh\n".toList.length = 10 := by decide
  rw [filesBytes, packageFiles, crowded, List.map_cons, List.map_append, List.sum_cons,
    List.sum_append, hfillers, List.map_singleton, List.sum_singleton, hinfo, hscript]

/-- The script is none of the first files. -/
theorem toolPath_not_mem (h : 127 ≤ count) :
    toolPath ∉ ((filesListing (packageFiles (crowded count))).map Entry.path).take 128 := by
  have hpaths : (filesListing (packageFiles (crowded count))).map Entry.path =
      (".PKGINFO".toList :: (fillers count).map Prod.fst) ++ [toolPath] := by
    rw [filesListing, List.map_map, packageFiles, crowded, List.map_cons, List.map_append]
    rfl
  rw [hpaths, List.take_append_of_le_length]
  · intro hmem
    rcases List.mem_cons.mp (List.mem_of_mem_take hmem) with hinfo | hfiller
    · exact absurd hinfo (by decide)
    · obtain ⟨file, hfile, heq⟩ := List.mem_map.mp hfiller
      obtain ⟨i, _, rfl⟩ := List.mem_map.mp hfile
      have hhead := congrArg List.head? heq
      rw [List.replicate_succ] at hhead
      cases hhead
  · rw [List.length_cons, List.length_map, fillers, List.length_map, List.length_range]
    omega

theorem crowded_missed (h : 127 ≤ count) (hfits : count ≤ 4096) :
    (inspect (packageHost (crowded count)) packagePath {}).ok = true ∧
      ¬ DiscoversAll (packageHost (crowded count)).archive
        (inspect (packageHost (crowded count)) packagePath {}).metadata := by
  have hplain := plainFiles_crowded hfits
  have hlength : (crowded count).length = count + 1 := by simp [crowded, fillers]
  have hbytes : 2 * filesBytes (packageFiles (crowded count)) ≤ 1073741824 := by
    rw [filesBytes_crowded]
    decide
  have hcount : (crowded count).length < 100000 := by omega
  have hok := inspect_packageHost hplain hcount hbytes
  refine ⟨hok, ?_⟩
  intro hall
  have hentry := @entryOf_fileEntry {} toolPath "#!/bin/sh\n".toList plainFile_tool.1
    plainFile_tool.2
  have hfile : (toolPath, "#!/bin/sh\n".toList) ∈ packageFiles (crowded count) :=
    List.mem_cons_of_mem _ (List.mem_append_right _ (List.mem_singleton.mpr rfl))
  have hmem : toolPath ∈ _ := hall _ (List.mem_map_of_mem hfile) _ hentry ⟨rfl, rfl⟩ (by decide)
  obtain ⟨entries, hlist, hfiles, hnone⟩ := inspect_ok hok
  obtain rfl : entries = filesListing (packageFiles (crowded count)) := Except.ok.inj
    (hlist.symm.trans (list_filesArchive (plainFiles_packageFiles hplain) hcount hbytes))
  rw [mem_discover, hnone, hfiles] at hmem
  rcases hmem with hknown | ⟨htaken, _⟩
  · cases hknown
  · exact toolPath_not_mem h htaken

end Crowded

/-- A script of more than a mebibyte is missed, and so is one behind 128 files. -/
theorem discover_misses :
    ((inspect (packageHost [(toolPath, largeScript 1048576)]) packagePath {}).ok = true ∧
      ¬ DiscoversAll (packageHost [(toolPath, largeScript 1048576)]).archive
        (inspect (packageHost [(toolPath, largeScript 1048576)]) packagePath {}).metadata) ∧
    ((inspect (packageHost (crowded 127)) packagePath {}).ok = true ∧
      ¬ DiscoversAll (packageHost (crowded 127)).archive
        (inspect (packageHost (crowded 127)) packagePath {}).metadata) :=
  ⟨largeScript_missed (Nat.le_refl _) (by omega), crowded_missed (Nat.le_refl _) (by omega)⟩

end ExeCell.Package
