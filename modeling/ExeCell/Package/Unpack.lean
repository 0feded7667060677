import ExeCell.Lib.Search
import ExeCell.Package.ArchiveBudget

/-!
# What is inspected and what is unpacked

`read` returns the data of the first entry with a path. Unpacking goes through all
entries, and every entry replaces what stands in its way: whatever is at its path and
beneath it, and everything above it that is not a directory. `read_unpack_iff` says when
the two agree on the bytes at a path.
-/

namespace ExeCell.Package.ArchiveAdapter

/-! ## Unpacking -/

/-- What stands at a place in a directory tree. -/
inductive Node where
  | file (bytes : Text)
  | directory
  | symlink (target : Text)
  deriving DecidableEq

/-- A directory tree, by the names that lead from the root to a place. -/
abbrev Tree := List Text → Option Node

/-- The tree with something else at a place: with directories above it and, unless it is
a directory itself, nothing beneath it. -/
def Tree.replace (tree : Tree) (place : List Text) (node : Option Node) : Tree := fun names =>
  if names = place then node
  else if names <+: place then some .directory
  else if place <+: names then if node = some .directory then tree names else none
  else tree names

/-- What a hard link finds at its target, once its own place has been cleared. -/
def Tree.linked (tree : Tree) (place : List Text) (target : Text) : Option Node :=
  match tree.replace place none (namesOf target) with
  | some .directory => none
  | found => found

/-- What an entry puts at its path. -/
def nodeOf (tree : Tree) (raw : RawEntry) (entry : Entry) : Option Node :=
  match entry.kind with
  | .symlink => some (.symlink entry.linkTarget)
  | .hardlink => tree.linked (namesOf entry.path) entry.linkTarget
  | .regular => if raw.filetype = .directory then some .directory else some (.file raw.body.bytes)

def unpackEntry (limits : Limits) (tree : Tree) (raw : RawEntry) : Tree :=
  match entryOf raw limits with
  | .error _ => tree
  | .ok entry => tree.replace (namesOf entry.path) (nodeOf tree raw entry)

/-- The tree that all entries leave, in the order of the archive. -/
def unpack (limits : Limits) (raws : List RawEntry) : Tree :=
  raws.foldl (unpackEntry limits) fun _ => none

/-- The entry is at or beneath the place, or above it without being a directory. -/
def touches (limits : Limits) (names : List Text) (raw : RawEntry) : Bool :=
  match entryOf raw limits with
  | .error _ => false
  | .ok entry =>
    names <+: namesOf entry.path ||
      (namesOf entry.path <+: names && !(entry.kind = .regular && raw.filetype = .directory))

section Unpack

variable {limits : Limits} {tree : Tree} {names : List Text} {raw : RawEntry} {entry : Entry}

theorem nodeOf_eq_directory : nodeOf tree raw entry = some .directory ↔
    entry.kind = .regular ∧ raw.filetype = .directory := by
  rw [nodeOf]
  cases entry.kind with
  | symlink => simp
  | hardlink =>
    simp only [reduceCtorEq, false_and, iff_false]
    rw [Tree.linked]
    split
    · simp
    · assumption
  | regular => simp

theorem unpackEntry_of_not_touches (h : touches limits names raw = false) :
    unpackEntry limits tree raw names = tree names := by
  rw [unpackEntry]
  cases hentry : entryOf raw limits with
  | error message => rfl
  | ok entry =>
    rw [touches, hentry] at h
    simp only [Bool.or_eq_false_iff, decide_eq_false_iff_not, Bool.and_eq_false_iff,
      Bool.not_eq_false', Bool.and_eq_true, decide_eq_true_eq] at h
    obtain ⟨hbelow, habove⟩ := h
    have hne : names ≠ namesOf entry.path := fun heq => hbelow (heq ▸ List.prefix_rfl)
    show Tree.replace tree _ _ names = _
    rw [Tree.replace, if_neg hne, if_neg hbelow]
    split
    · rename_i hprefix
      rw [if_pos (nodeOf_eq_directory.mpr (habove.resolve_left (not_not.mpr hprefix)))]
    · rfl

/-- The last entry that touches a place decides what stands there. -/
theorem unpack_last {before after : List RawEntry}
    (hafter : ∀ raw ∈ after, touches limits names raw = false) :
    unpack limits (before ++ raw :: after) names =
      unpackEntry limits (unpack limits before) raw names := by
  have hrest : ∀ tree : Tree, after.foldl (unpackEntry limits) tree names = tree names := by
    induction after with
    | nil => exact fun _ => rfl
    | cons next after ih =>
      intro tree
      rw [List.forall_mem_cons] at hafter
      rw [List.foldl_cons, ih hafter.2, unpackEntry_of_not_touches hafter.1]
  rw [unpack, List.foldl_append, List.foldl_cons, hrest]
  rfl

/-- An entry that touches a place leaves a file there only from its own path. -/
theorem unpackEntry_eq_file {bytes : Text} (hentry : entryOf raw limits = .ok entry)
    (htouches : touches limits names raw = true) :
    unpackEntry limits tree raw names = some (.file bytes) ↔
      names = namesOf entry.path ∧ nodeOf tree raw entry = some (.file bytes) := by
  rw [unpackEntry, hentry]
  show Tree.replace tree _ _ names = _ ↔ _
  rw [Tree.replace]
  by_cases hplace : names = namesOf entry.path
  · rw [if_pos hplace]
    simp [hplace]
  · rw [if_neg hplace]
    simp only [hplace, false_and, iff_false]
    by_cases hbelow : names <+: namesOf entry.path
    · rw [if_pos hbelow]
      simp
    · rw [touches, hentry] at htouches
      simp only [hbelow, decide_false, Bool.false_or, Bool.and_eq_true, decide_eq_true_eq,
        Bool.not_eq_true', Bool.and_eq_false_iff, decide_eq_false_iff_not] at htouches
      rw [if_neg hbelow, if_pos htouches.1, if_neg]
      · simp
      · intro hnode
        obtain ⟨hkind, htype⟩ := nodeOf_eq_directory.mp hnode
        rcases htouches.2 with h | h
        · exact h hkind
        · exact h htype

end Unpack

/-! ## The first entry -/

/-- The entry is accepted and has this path. -/
def isAt (limits : Limits) (path : Text) (raw : RawEntry) : Bool :=
  match entryOf raw limits with
  | .error _ => false
  | .ok entry => entry.path = path

section Read

variable {limits : Limits} {path : Text} {maxBytes : Nat} {raws : List RawEntry} {raw : RawEntry}
  {entry : Entry} {meter : Meter}

theorem isAt_iff : isAt limits path raw = true ↔
    ∃ entry, entryOf raw limits = .ok entry ∧ entry.path = path := by
  rw [isAt]
  cases entryOf raw limits with
  | error message => simp
  | ok entry => simp

/-- An entry that `list` accepts and that is not wanted is passed over. -/
theorem readLoop_passes (hentry : entryOf raw limits = .ok entry) (hpath : entry.path ≠ path)
    (hwhole : raw.body.broken = false)
    (hfits : raw.body.bytes.length ≤ limits.maxUnpackedBytes) :
    (readLoop limits path maxBytes (raw :: raws) meter).1 =
      (readLoop limits path maxBytes raws (meter.header.pull
        (discardEntry raw.body 0 limits.maxUnpackedBytes).bytes)).1 := by
  have hok := (@discardEntry_ok_iff _ _ raw.body (Nat.zero_le limits.maxUnpackedBytes)).mpr
    ⟨hwhole, by rwa [Nat.zero_add]⟩
  rw [readLoop, hentry]
  dsimp only
  rw [if_pos hpath, if_pos hok]

theorem readLoop_first {front rest : List RawEntry}
    (hfront : ∀ raw ∈ front, (∃ entry, entryOf raw limits = .ok entry ∧ entry.path ≠ path) ∧
      raw.body.broken = false ∧ raw.body.bytes.length ≤ limits.maxUnpackedBytes) :
    ∃ meter', (readLoop limits path maxBytes (front ++ rest) meter).1 =
      (readLoop limits path maxBytes rest meter').1 := by
  induction front generalizing meter with
  | nil => exact ⟨meter, rfl⟩
  | cons raw front ih =>
    rw [List.forall_mem_cons] at hfront
    obtain ⟨⟨⟨entry, hentry, hpath⟩, hwhole, hfits⟩, hfront⟩ := hfront
    rw [List.cons_append, readLoop_passes hentry hpath hwhole hfits]
    exact ih hfront

/-- `read` returns the data of the wanted entry up to its size, or nothing. -/
theorem readLoop_wanted (hentry : entryOf raw limits = .ok entry) (hpath : entry.path = path)
    (bytes : Text) :
    (readLoop limits path maxBytes (raw :: raws) meter).1 = .ok bytes ↔
      entry.kind = .regular ∧ entry.size ≤ maxBytes ∧ entry.size ≤ raw.body.bytes.length ∧
        bytes = raw.body.bytes.take entry.size := by
  rw [readLoop, hentry]
  dsimp only
  rw [if_neg (not_not.mpr hpath), fillLoop_eq (Nat.lt_succ_self _)]
  split
  · rename_i hrefused
    refine iff_of_false (by simp) ?_
    rintro ⟨hkind, hsize, _⟩
    rcases hrefused with h | h
    · exact h hkind
    · omega
  · rename_i hrefused
    simp only [not_or, not_not, Nat.not_lt] at hrefused
    split
    · rename_i henough
      simp only [List.nil_append, Except.ok.injEq, hrefused.1, hrefused.2, henough, true_and]
      exact eq_comm
    · rename_i hshort
      simp [hshort]

/-- The first entry with the path, as it was accepted. -/
def IsFirst (limits : Limits) (path : Text) (raws : List RawEntry) (first : RawEntry)
    (entry : Entry) : Prop :=
  ∃ front rest, raws = front ++ first :: rest ∧ entryOf first limits = .ok entry ∧
    entry.path = path ∧ ∀ raw ∈ front, isAt limits path raw = false

theorem exists_isFirst (hraw : raw ∈ raws) (hentry : entryOf raw limits = .ok entry) :
    ∃ first firstEntry, IsFirst limits entry.path raws first firstEntry := by
  obtain ⟨front, first, rest, hraws, hat, hfront⟩ := Search.exists_first
    ⟨raw, hraw, isAt_iff.mpr ⟨entry, hentry, rfl⟩⟩
  obtain ⟨firstEntry, hfirst, hpath⟩ := isAt_iff.mp hat
  exact ⟨first, firstEntry, front, rest, hraws, hfirst, hpath, hfront⟩

/-- In an archive that `list` accepts, `read` returns the declared part of the data of the
first entry with the path, if that is bounded regular data. -/
theorem read_ok_iff {archive : Archive} {entries : List Entry} {first : RawEntry}
    (hlist : list archive limits = .ok entries)
    (hfirst : IsFirst limits path archive.entries first entry) (bytes : Text) :
    read archive path maxBytes limits = .ok bytes ↔
      entry.kind = .regular ∧ entry.size ≤ maxBytes ∧ entry.size ≤ first.body.bytes.length ∧
        bytes = first.body.bytes.take entry.size := by
  obtain ⟨front, rest, hentries, hentry, hpath, hfront⟩ := hfirst
  have hsafe : safePath (some (CString.ofText path)) limits.maxPathBytes = .ok path := by
    rw [← hpath]
    exact safePath_of_safePath (entryOf_ok_iff.mp hentry).1
  have hskipped : ∀ raw ∈ front, (∃ entry, entryOf raw limits = .ok entry ∧ entry.path ≠ path) ∧
      raw.body.broken = false ∧ raw.body.bytes.length ≤ limits.maxUnpackedBytes := by
    intro raw hraw
    have hmem : raw ∈ archive.entries := by
      rw [hentries]
      exact List.mem_append_left _ hraw
    obtain ⟨⟨other, _, hother⟩, hwhole, hfits⟩ := entry_of_list hlist hmem
    refine ⟨⟨other, hother, fun heq => ?_⟩, hwhole, hfits⟩
    exact absurd (isAt_iff.mpr ⟨other, hother, heq⟩) (by simp [hfront raw hraw])
  have hopen := (list_ok_iff.mp hlist).1.1
  obtain ⟨meter', hloop⟩ := @readLoop_first limits path maxBytes {} front (first :: rest) hskipped
  rw [read, readMetered, hsafe, hopen]
  dsimp only
  rw [hentries, hloop]
  exact readLoop_wanted hentry hpath bytes

end Read

/-! ## Agreement -/

/-- `read` returns the bytes that unpacking leaves at the path. -/
def ReadsUnpacked (archive : Archive) (limits : Limits) (path : Text) (maxBytes : Nat) : Prop :=
  ∃ bytes, read archive path maxBytes limits = .ok bytes ∧
    unpack limits archive.entries (namesOf path) = some (.file bytes)

/-- The last entry that touches the path, and the entries before it. -/
def IsLast (limits : Limits) (path : Text) (raws before : List RawEntry) (last : RawEntry)
    (entry : Entry) : Prop :=
  ∃ after, raws = before ++ last :: after ∧ entryOf last limits = .ok entry ∧
    touches limits (namesOf path) last = true ∧
    ∀ raw ∈ after, touches limits (namesOf path) raw = false

/-- The entry is a regular file with these bytes, or a hard link to such a file. -/
def Carries (limits : Limits) (before : List RawEntry) (raw : RawEntry) (entry : Entry)
    (bytes : Text) : Prop :=
  (entry.kind = .regular ∧ raw.filetype ≠ .directory ∧ raw.body.bytes = bytes) ∨
    (entry.kind = .hardlink ∧
      (unpack limits before).linked (namesOf entry.path) entry.linkTarget = some (.file bytes))

/-- The first entry at the path is bounded regular data with as many bytes as it declares,
and the last entry that touches the path carries just these bytes there. -/
def FirstIsLast (archive : Archive) (limits : Limits) (path : Text) (maxBytes : Nat) : Prop :=
  ∃ first firstEntry before last lastEntry,
    IsFirst limits path archive.entries first firstEntry ∧
    IsLast limits path archive.entries before last lastEntry ∧
    firstEntry.kind = .regular ∧ firstEntry.size ≤ maxBytes ∧
    firstEntry.size ≤ first.body.bytes.length ∧
    lastEntry.path = path ∧
    Carries limits before last lastEntry (first.body.bytes.take firstEntry.size)

section Agreement

variable {limits : Limits} {archive : Archive} {entries : List Entry} {raw : RawEntry}
  {entry : Entry} {path : Text} {maxBytes : Nat}

theorem nodeOf_eq_file {before : List RawEntry} {bytes : Text} :
    nodeOf (unpack limits before) raw entry = some (.file bytes) ↔
      Carries limits before raw entry bytes := by
  rw [nodeOf, Carries]
  cases entry.kind with
  | symlink => simp
  | hardlink => simp
  | regular =>
    by_cases htype : raw.filetype = .directory
    · simp [htype]
    · simp [htype]

theorem exists_isLast {raws : List RawEntry} (hraw : raw ∈ raws)
    (hentry : entryOf raw limits = .ok entry) :
    ∃ before last lastEntry, IsLast limits entry.path raws before last lastEntry := by
  have htouches : touches limits (namesOf entry.path) raw = true := by
    rw [touches, hentry]
    simp
  obtain ⟨before, last, after, hraws, hlast, hafter⟩ := Search.exists_last ⟨raw, hraw, htouches⟩
  cases hok : entryOf last limits with
  | error message =>
    rw [touches, hok] at hlast
    cases hlast
  | ok lastEntry => exact ⟨before, last, lastEntry, after, hraws, hok, hlast, hafter⟩

/-- What stands at the path in the end is what the last entry that touches it carries
there. -/
theorem unpack_eq_file {raws before : List RawEntry} {last : RawEntry} {lastEntry : Entry}
    (hcanonical : Canonical path limits.maxPathBytes)
    (hlast : IsLast limits path raws before last lastEntry) (bytes : Text) :
    unpack limits raws (namesOf path) = some (.file bytes) ↔
      lastEntry.path = path ∧ Carries limits before last lastEntry bytes := by
  obtain ⟨after, hraws, hentry, htouches, hafter⟩ := hlast
  have hlastPath := (canonical_of_safePath (entryOf_ok_iff.mp hentry).1).1
  rw [hraws, unpack_last hafter, unpackEntry_eq_file hentry htouches, nodeOf_eq_file,
    hcanonical.namesOf_inj hlastPath, eq_comm]

/-- For the path of every entry of an archive that `list` accepts, `read` returns what
unpacking leaves there if and only if the first entry at the path and the last one that
touches it agree. -/
theorem read_unpack_iff (hlist : list archive limits = .ok entries)
    (hraw : raw ∈ archive.entries) (hentry : entryOf raw limits = .ok entry) (maxBytes : Nat) :
    ReadsUnpacked archive limits entry.path maxBytes ↔
      FirstIsLast archive limits entry.path maxBytes := by
  have hcanonical := (canonical_of_safePath (entryOf_ok_iff.mp hentry).1).1
  constructor
  · rintro ⟨bytes, hread, hunpack⟩
    obtain ⟨first, firstEntry, hfirst⟩ := exists_isFirst hraw hentry
    obtain ⟨before, last, lastEntry, hlast⟩ := exists_isLast hraw hentry
    obtain ⟨hkind, hsize, hdata, rfl⟩ := (read_ok_iff hlist hfirst bytes).mp hread
    obtain ⟨hpath, hcarries⟩ := (unpack_eq_file hcanonical hlast _).mp hunpack
    exact ⟨first, firstEntry, before, last, lastEntry, hfirst, hlast, hkind, hsize, hdata, hpath,
      hcarries⟩
  · rintro ⟨first, firstEntry, before, last, lastEntry, hfirst, hlast, hkind, hsize, hdata, hpath,
      hcarries⟩
    refine ⟨first.body.bytes.take firstEntry.size, ?_, ?_⟩
    · exact (read_ok_iff hlist hfirst _).mpr ⟨hkind, hsize, hdata, rfl⟩
    · exact (unpack_eq_file hcanonical hlast _).mpr ⟨hpath, hcarries⟩

end Agreement

/-- A hard link to a second copy takes the place of the tool. -/
def relinkedArchive : Archive where
  fileSize := .ok 10240
  entries := [fileEntry "usr/bin/tool".toList "#!/bin/sh\n".toList,
    fileEntry "usr/share/tool".toList "#!/bin/sh\n".toList,
    { pathname := some (CString.ofText "usr/bin/tool".toList)
      hardlink := some (CString.ofText "usr/share/tool".toList)
      mode := 420 }]

def toolEntry : Entry := { path := "usr/bin/tool".toList, size := 10, mode := 420 }

def sharedEntry : Entry := { path := "usr/share/tool".toList, size := 10, mode := 420 }

def toolLink : Entry :=
  { path := "usr/bin/tool".toList, kind := .hardlink, linkTarget := "usr/share/tool".toList,
    mode := 420 }

theorem read_unpack_tool :
    list relinkedArchive = .ok [toolEntry, sharedEntry, toolLink] ∧
    ReadsUnpacked relinkedArchive {} "usr/bin/tool".toList 1048576 := by
  have hlist : list relinkedArchive = .ok [toolEntry, sharedEntry, toolLink] := by rfl
  have hentry : entryOf (fileEntry "usr/bin/tool".toList "#!/bin/sh\n".toList) {} =
      .ok toolEntry := by rfl
  refine ⟨hlist, (read_unpack_iff hlist List.mem_cons_self hentry 1048576).mpr ?_⟩
  refine ⟨_, toolEntry, relinkedArchive.entries.take 2, _, toolLink,
    ⟨[], _, rfl, hentry, rfl, by simp⟩, ⟨[], rfl, by rfl, by decide, by simp⟩, rfl, by decide,
    by decide, rfl, Or.inr ?_⟩
  exact ⟨rfl, by rfl⟩

/-- Two entries with one path. -/
def twiceArchive : Archive where
  fileSize := .ok 10240
  entries := [fileEntry "usr/bin/tool".toList "text\n".toList,
    fileEntry "./usr/bin/tool".toList "#!/bin/sh\n".toList]

/-- The first one is inspected, the second one is what stays. -/
theorem twiceArchive_differs :
    (∃ entries, list twiceArchive = .ok entries ∧ entries.length = 2 ∧
      ∀ entry ∈ entries, entry.path = "usr/bin/tool".toList ∧ entry.kind = .regular ∧
        entry.size ≤ 1048576) ∧
    ¬ ReadsUnpacked twiceArchive {} "usr/bin/tool".toList 1048576 := by
  refine ⟨⟨_, rfl, rfl, by decide⟩, ?_⟩
  rintro ⟨bytes, hread, hunpack⟩
  have hfirst : read twiceArchive "usr/bin/tool".toList 1048576 = .ok "text\n".toList := by rfl
  have hlast : unpack {} twiceArchive.entries (namesOf "usr/bin/tool".toList) =
      some (.file "#!/bin/sh\n".toList) := by rfl
  rw [hfirst] at hread
  rw [hlast] at hunpack
  cases hread
  exact absurd hunpack (by decide)

end ExeCell.Package.ArchiveAdapter
