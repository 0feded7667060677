import ExeCell.Package.ArchivePaths
import ExeCell.Package.ArchiveWalk

/-!
# The limits of `list` and `read`

Which archives `list` accepts, and how much the two functions take out of one.

* `list_wellFormed_iff`: `safe_path` has no place for the separator at the end of a
  directory's name, and the budget pays twice for every byte, so that of the archives
  within the limits only those without directories and of half the size are listed.
* `budget_exact_iff`: the counter of `list` stays within 64 bits, and its check of the size
  is wrong exactly for archives that fit once and not with what is charged twice.
* `budget_iff`: the budget of `list` spans the whole archive. That of `read` starts anew
  with every entry, and `read` counts no entries, so that it keeps to the bounds only for
  archives whose entries in front of the wanted one do.
-/

namespace ExeCell.Package.ArchiveAdapter

/-! ## Well-formed archives -/

/-- A directory or a regular file as tar stores it: with a canonical name, perhaps after
`./` and for a directory with a separator at its end, and with as much data as it says. -/
structure PlainEntry (limits : Limits) (raw : RawEntry) : Prop where
  type : raw.filetype = .regular ∨ raw.filetype = .directory
  named : ∃ text path, raw.pathname = some text ∧ Canonical path limits.maxPathBytes ∧
    Stripped text.chars (if raw.filetype = .directory then path ++ ['/'] else path)
  unlinked : raw.hardlink = none
  sized : raw.size = some (raw.body.bytes.length : Int)
  empty : raw.filetype = .directory → raw.body.bytes = []
  whole : raw.body.broken = false
  mode : raw.mode &&& 3072 = 0

/-- The bytes of all entries together. -/
def unpackedBytes (archive : Archive) : Nat :=
  (archive.entries.map fun raw => raw.body.bytes.length).sum

/-- A package within the limits. -/
structure WellFormed (archive : Archive) (limits : Limits) : Prop where
  readable : Readable archive limits
  count : archive.entries.length ≤ limits.maxEntries
  bytes : unpackedBytes archive ≤ limits.maxUnpackedBytes
  entries : ∀ raw ∈ archive.entries, PlainEntry limits raw

/-- `list` succeeds, with one entry for every entry of the archive, in that order. -/
def Listed (archive : Archive) (limits : Limits) : Prop :=
  ∃ entries, list archive limits = .ok entries ∧ Accepted limits archive.entries entries

section WellFormed

variable {limits : Limits} {raw : RawEntry} {archive : Archive}

theorem declaredSize_of_plain (h : PlainEntry limits raw) :
    declaredSize raw = raw.body.bytes.length := by
  rw [declaredSize, h.sized]
  rfl

/-- A name with a separator at its end has an empty component. -/
theorem not_canonical_directory (path : Text) (limit : Nat) : ¬ Canonical (path ++ ['/']) limit := by
  intro h
  have hsplit : (path ++ ['/']).splitOn '/' = path.splitOn '/' ++ [[]] :=
    List.splitOn_append_cons_self path []
  exact (h.components [] (by rw [hsplit]; simp)).1 rfl

theorem entryOf_of_directory (h : PlainEntry limits raw) (htype : raw.filetype = .directory) :
    ∃ message, entryOf raw limits = .error message := by
  obtain ⟨text, path, htext, _, hstripped⟩ := h.named
  rw [if_pos htype] at hstripped
  rw [entryOf, htext]
  obtain ⟨hcanonical, _⟩ | ⟨_, herror⟩ := @safePath_eq text _ limits.maxPathBytes hstripped
  · exact absurd hcanonical (not_canonical_directory _ _)
  · rw [herror]
    exact ⟨_, rfl⟩

theorem entryOf_of_file (h : PlainEntry limits raw) (htype : raw.filetype ≠ .directory) :
    ∃ entry, entryOf raw limits = .ok entry ∧ entry.size = raw.body.bytes.length := by
  obtain ⟨text, path, htext, hcanonical, hstripped⟩ := h.named
  have hregular : raw.filetype = .regular := h.type.resolve_right htype
  rw [if_neg htype] at hstripped
  refine ⟨{ path := path, size := raw.body.bytes.length, mode := raw.mode }, ?_, rfl⟩
  refine entryOf_ok_iff.mpr ⟨?_, ?_, h.mode, rfl⟩
  · rw [htext]
    exact safePath_of_canonical hstripped hcanonical
  · rw [kindOf, hregular, h.unlinked, declaredSize_of_plain h]
    rfl

/-- Every byte of a file is charged when its header is read, and again with its data. -/
theorem accepted_of_files {raws : List RawEntry}
    (h : ∀ raw ∈ raws, PlainEntry limits raw ∧ raw.filetype ≠ .directory) :
    ∃ entries, Accepted limits raws entries ∧
      charges raws entries = 2 * (raws.map fun raw => raw.body.bytes.length).sum := by
  induction raws with
  | nil => exact ⟨[], accepted_nil.mpr rfl, rfl⟩
  | cons raw raws ih =>
    rw [List.forall_mem_cons] at h
    obtain ⟨⟨hplain, htype⟩, hrest⟩ := h
    obtain ⟨entries, haccepted, hcharges⟩ := ih hrest
    obtain ⟨entry, hentry, hsize⟩ := entryOf_of_file hplain htype
    refine ⟨entry :: entries, accepted_cons.mpr ⟨entry, entries, hentry, haccepted, rfl⟩, ?_⟩
    have hcharge : charges (raw :: raws) (entry :: entries) =
        entry.size + raw.body.bytes.length + charges raws entries := rfl
    rw [hcharge, hcharges, hsize, List.map_cons, List.sum_cons]
    omega

theorem Accepted.unique {raws : List RawEntry} {entries entries' : List Entry}
    (h : Accepted limits raws entries) (h' : Accepted limits raws entries') :
    entries = entries' := by
  have hmap : entries.map Except.ok = entries'.map (Except.ok (ε := Text)) := h.symm.trans h'
  exact List.map_injective_iff.mpr (fun _ _ => Except.ok.inj) hmap

/-- A package within the limits is listed entry by entry if and only if it has no
directories and fills at most half of the budget. -/
theorem list_wellFormed_iff (h : WellFormed archive limits) :
    Listed archive limits ↔
      (∀ raw ∈ archive.entries, raw.filetype ≠ .directory) ∧
        2 * unpackedBytes archive ≤ limits.maxUnpackedBytes := by
  constructor
  · rintro ⟨entries, hlist, haccepted⟩
    have hfiles : ∀ raw ∈ archive.entries, raw.filetype ≠ .directory := by
      intro raw hraw htype
      obtain ⟨message, herror⟩ := entryOf_of_directory (h.entries raw hraw) htype
      obtain ⟨entry, _, hok⟩ := haccepted.exists_entry hraw
      rw [herror] at hok
      cases hok
    obtain ⟨entries', haccepted', hcharges⟩ :=
      accepted_of_files fun raw hraw => ⟨h.entries raw hraw, hfiles raw hraw⟩
    obtain rfl := haccepted.unique haccepted'
    refine ⟨hfiles, ?_⟩
    rw [unpackedBytes, ← hcharges]
    exact (list_ok_iff.mp hlist).2.2.2.2
  · rintro ⟨hfiles, hhalf⟩
    obtain ⟨entries, haccepted, hcharges⟩ :=
      accepted_of_files fun raw hraw => ⟨h.entries raw hraw, hfiles raw hraw⟩
    refine ⟨entries, list_ok_iff.mpr ⟨h.readable, haccepted, ?_, h.count, ?_⟩, haccepted⟩
    · exact fun raw hraw => (h.entries raw hraw).whole
    · rw [hcharges]
      exact hhalf

end WellFormed

/-- A regular file of mode 0644. -/
def fileEntry (path bytes : Text) : RawEntry where
  pathname := some (CString.ofText path)
  size := some bytes.length
  mode := 420
  body := { bytes := bytes }

/-- A directory of mode 0755. -/
def directoryEntry (path : Text) : RawEntry where
  pathname := some (CString.ofText path)
  filetype := .directory
  size := some 0
  mode := 493

theorem plainEntry_file {limits : Limits} {path : Text} (bytes : Text) (hnul : '\x00' ∉ path)
    (h : Canonical path limits.maxPathBytes) : PlainEntry limits (fileEntry path bytes) where
  type := Or.inl rfl
  named := by
    refine ⟨CString.ofText path, path, rfl, h, ?_⟩
    rw [chars_ofText hnul]
    exact h.stripped
  unlinked := rfl
  sized := rfl
  empty := by
    intro hdirectory
    cases hdirectory
  whole := rfl
  mode := by
    show 420 &&& 3072 = 0
    decide

theorem entryOf_fileEntry {limits : Limits} {path : Text} (bytes : Text) (hnul : '\x00' ∉ path)
    (h : Canonical path limits.maxPathBytes) :
    entryOf (fileEntry path bytes) limits =
      .ok { path := path, size := bytes.length, mode := 420 } := by
  refine entryOf_ok_iff.mpr ⟨?_, rfl, (plainEntry_file bytes hnul h).mode, rfl⟩
  apply safePath_of_canonical
  · rw [chars_ofText hnul]
    exact h.stripped
  · exact h

theorem plainEntry_directory {limits : Limits} {path name : Text}
    (h : Canonical name limits.maxPathBytes)
    (hpath : Stripped (CString.ofText path).chars (name ++ ['/'])) :
    PlainEntry limits (directoryEntry path) where
  type := Or.inr rfl
  named := ⟨CString.ofText path, name, rfl, h, hpath⟩
  unlinked := rfl
  sized := rfl
  empty := fun _ => rfl
  whole := rfl
  mode := by
    show 493 &&& 3072 = 0
    decide

/-- One script in a package. -/
def toolArchive : Archive where
  fileSize := .ok 10240
  entries := [fileEntry "usr/bin/tool".toList "#!/bin/sh\n".toList]

theorem plainEntry_tool : PlainEntry {} (fileEntry "usr/bin/tool".toList "#!/bin/sh\n".toList) :=
  plainEntry_file _ (by decide) (by decide)

theorem list_toolArchive : WellFormed toolArchive {} ∧ Listed toolArchive {} := by
  have hwell : WellFormed toolArchive {} :=
    ⟨⟨rfl, rfl⟩, by decide, by decide, List.forall_mem_singleton.mpr plainEntry_tool⟩
  exact ⟨hwell, (list_wellFormed_iff hwell).mpr ⟨by decide, by decide⟩⟩

/-- The same, with the entry of its directory. -/
def tarArchive : Archive where
  fileSize := .ok 10240
  entries := [directoryEntry "./usr/bin/".toList,
    fileEntry "usr/bin/tool".toList "#!/bin/sh\n".toList]

/-- A package with its directories is not listed. -/
theorem tarArchive_not_listed : WellFormed tarArchive {} ∧ ¬ Listed tarArchive {} := by
  have hdirectory : PlainEntry {} (directoryEntry "./usr/bin/".toList) :=
    @plainEntry_directory {} _ "usr/bin".toList (by decide)
      ⟨⟨1, by decide⟩, by decide⟩
  refine ⟨⟨⟨rfl, rfl⟩, by decide, by decide, List.forall_mem_cons.mpr
    ⟨hdirectory, List.forall_mem_singleton.mpr plainEntry_tool⟩⟩, ?_⟩
  rintro ⟨entries, _, haccepted⟩
  obtain ⟨message, herror⟩ := entryOf_of_directory hdirectory rfl
  obtain ⟨entry, _, hok⟩ := haccepted.exists_entry (List.mem_cons_self ..)
  rw [herror] at hok
  cases hok

/-! ## The budget of `list` -/

section Addition

variable (add : Nat → Nat → Nat)

/-- `discard_entry` with `add` for the addition of two 64-bit numbers. -/
def discardLoopWith (limit : Nat) : Nat → Body → Nat → Discarded
  | 0, _, total => { ok := true, total := total }
  | fuel + 1, body, total =>
    match body.read bufferSize with
    | none => { ok := false, total := total }
    | some (chunk, rest) =>
      if chunk = [] then { ok := true, total := total }
      else if chunk.length > limit - min total limit then
        { ok := false, total := total, bytes := chunk.length }
      else
        let later := discardLoopWith limit fuel rest (add total chunk.length)
        { later with bytes := chunk.length + later.bytes }

/-- The loop of `list` with `add` for the addition of two 64-bit numbers. -/
def listLoopWith (limits : Limits) :
    List RawEntry → List Entry → Nat → Meter → Except Text (List Entry) × Meter
  | [], result, _, meter => (.ok result, meter)
  | raw :: entries, result, unpacked, meter =>
    if result.length ≥ limits.maxEntries then
      (.error "archive entry-count limit exceeded".toList, meter.header)
    else
      match entryOf raw limits with
      | .error message => (.error message, meter.header)
      | .ok entry =>
        if entry.size > limits.maxUnpackedBytes - min unpacked limits.maxUnpackedBytes then
          (.error "archive unpacked-size limit exceeded".toList, meter.header)
        else
          let discarded := discardLoopWith add limits.maxUnpackedBytes
            (raw.body.bytes.length + 1) raw.body (add unpacked entry.size)
          if discarded.ok then
            listLoopWith limits entries (result ++ [entry]) discarded.total
              (meter.header.pull discarded.bytes)
          else
            (.error "archive unpacked-size limit exceeded".toList,
              meter.header.pull discarded.bytes)

/-- `add` is the addition as long as the sum has 64 bits, and anything beyond. -/
def AddsIn64 : Prop := ∀ a b, a + b < 2 ^ 64 → add a b = a + b

variable {add} {limits : Limits} {raws : List RawEntry} {result : List Entry}
  {body : Body} {meter : Meter} {fuel limit total unpacked : Nat}

theorem discardLoopWith_eq (hadd : AddsIn64 add) (hlimit : limit < 2 ^ 64)
    (htotal : total ≤ limit) :
    discardLoopWith add limit fuel body total = discardLoop limit fuel body total := by
  induction fuel generalizing body total with
  | zero => rfl
  | succ fuel ih =>
    rw [discardLoopWith, discardLoop]
    cases body.read bufferSize with
    | none => rfl
    | some read =>
      obtain ⟨chunk, rest⟩ := read
      dsimp only
      split
      · rfl
      split
      · rfl
      have hroom : total + chunk.length ≤ limit := by omega
      rw [hadd total chunk.length (by omega), ih hroom]

/-- Whatever an addition past 64 bits would give, the loop of `list` makes none. -/
theorem listLoopWith_eq (hadd : AddsIn64 add) (hlimit : limits.maxUnpackedBytes < 2 ^ 64)
    (hunpacked : unpacked ≤ limits.maxUnpackedBytes) :
    listLoopWith add limits raws result unpacked meter =
      listLoop limits raws result unpacked meter := by
  induction raws generalizing result unpacked meter with
  | nil => rfl
  | cons raw raws ih =>
    rw [listLoopWith, listLoop]
    split
    · rfl
    cases entryOf raw limits with
    | error message => rfl
    | ok entry =>
      dsimp only
      split
      · rfl
      have hroom : unpacked + entry.size ≤ limits.maxUnpackedBytes := by omega
      rw [hadd unpacked entry.size (by omega), discardLoopWith_eq hadd hlimit hroom,
        ← discardEntry]
      split
      · rename_i hok
        have hfits := ((discardEntry_ok_iff hroom).mp hok).2
        rw [ih (discardEntry_total hok ▸ hfits)]
      · rfl

end Addition

/-- The accumulator of `list` never leaves its 64 bits. -/
def NeverWraps (archive : Archive) (limits : Limits) : Prop :=
  ∀ add, AddsIn64 add →
    listLoopWith add limits archive.entries [] 0 {} = listLoop limits archive.entries [] 0 {}

/-- Every entry says how many bytes it has, and passes every other check. -/
structure TrueSizes (archive : Archive) (limits : Limits) : Prop where
  readable : Readable archive limits
  accepted : ∀ raw ∈ archive.entries, ∃ entry, entryOf raw limits = .ok entry
  count : archive.entries.length ≤ limits.maxEntries
  whole : ∀ raw ∈ archive.entries, raw.body.broken = false
  sized : ∀ raw ∈ archive.entries, raw.size = some (raw.body.bytes.length : Int)

/-- A directory that is no link, for which `entry_of` puts the size to zero. -/
def RawEntry.SizeDropped (raw : RawEntry) : Prop :=
  raw.filetype = .directory ∧ raw.hardlink = none

instance (raw : RawEntry) : Decidable raw.SizeDropped := inferInstanceAs (Decidable (_ ∧ _))

/-- The bytes that are charged with the headers, before any data is read. -/
def headerBytes (archive : Archive) : Nat :=
  (archive.entries.map fun raw =>
    if raw.SizeDropped then 0 else raw.body.bytes.length).sum

/-- The result of `list` when the budget is exhausted. -/
def OverBudget (archive : Archive) (limits : Limits) : Prop :=
  list archive limits = .error "archive unpacked-size limit exceeded".toList

section Budget

variable {limits : Limits} {raws : List RawEntry} {raw : RawEntry} {entry : Entry}
  {entries result : List Entry} {unpacked : Nat} {meter : Meter} {archive : Archive}

theorem exists_accepted (h : ∀ raw ∈ raws, ∃ entry, entryOf raw limits = .ok entry) :
    ∃ entries, Accepted limits raws entries := by
  induction raws with
  | nil => exact ⟨[], accepted_nil.mpr rfl⟩
  | cons raw raws ih =>
    rw [List.forall_mem_cons] at h
    obtain ⟨⟨entry, hentry⟩, hrest⟩ := h
    obtain ⟨entries, haccepted⟩ := ih hrest
    exact ⟨entry :: entries, accepted_cons.mpr ⟨entry, entries, hentry, haccepted, rfl⟩⟩

theorem size_of_entryOf (h : entryOf raw limits = .ok entry) :
    entry.size = if raw.SizeDropped then 0 else declaredSize raw := by
  rcases kindOf_cases (entryOf_ok_iff.mp h).2.1 with ⟨_, htype, _, hsize⟩ |
      ⟨_, _, hlink, hsize⟩ | ⟨_, htype, _, hsize⟩ | ⟨_, htype, hlink, hsize⟩
  · have hkept : ¬raw.SizeDropped := by
      intro hdropped
      rw [hdropped.1] at htype
      cases htype
    rw [if_neg hkept, hsize]
  · have hset : raw.hardlink ≠ none := by
      intro hnone
      rw [hnone] at hlink
      cases hlink
    rw [if_neg fun hdropped => hset hdropped.2, hsize]
  · have hkept : ¬raw.SizeDropped := by
      intro hdropped
      rw [hdropped.1] at htype
      cases htype
    rw [if_neg hkept, hsize]
  · rw [if_pos ⟨htype, hlink⟩, hsize]

theorem charges_of_sized (haccepted : Accepted limits raws entries)
    (hsized : ∀ raw ∈ raws, raw.size = some (raw.body.bytes.length : Int)) :
    charges raws entries = (raws.map fun raw => raw.body.bytes.length).sum +
      (raws.map fun raw =>
        if raw.SizeDropped then 0 else raw.body.bytes.length).sum := by
  induction raws generalizing entries with
  | nil =>
    obtain rfl := accepted_nil.mp haccepted
    rfl
  | cons raw raws ih =>
    rw [List.forall_mem_cons] at hsized
    obtain ⟨entry, rest, hentry, hrest, rfl⟩ := accepted_cons.mp haccepted
    have hcharge : charges (raw :: raws) (entry :: rest) =
        entry.size + raw.body.bytes.length + charges raws rest := rfl
    have hdeclared : declaredSize raw = raw.body.bytes.length := by
      rw [declaredSize, hsized.1]
      rfl
    rw [hcharge, ih hrest hsized.2, size_of_entryOf hentry, hdeclared, List.map_cons,
      List.map_cons, List.sum_cons, List.sum_cons]
    omega

/-- When every other check passes, the loop ends well or with the error of the budget. -/
theorem listLoop_accepted (haccepted : Accepted limits raws entries)
    (hwhole : ∀ raw ∈ raws, raw.body.broken = false)
    (hcount : result.length + raws.length ≤ limits.maxEntries) :
    (listLoop limits raws result unpacked meter).1 = .ok (result ++ entries) ∨
      (listLoop limits raws result unpacked meter).1 =
        .error "archive unpacked-size limit exceeded".toList := by
  induction raws generalizing entries result unpacked meter with
  | nil =>
    obtain rfl := accepted_nil.mp haccepted
    rw [listLoop, List.append_nil]
    exact .inl rfl
  | cons raw raws ih =>
    obtain ⟨entry, rest, hentry, hrest, rfl⟩ := accepted_cons.mp haccepted
    rw [List.length_cons] at hcount
    rw [listLoop, if_neg (by omega), hentry]
    dsimp only
    split
    · exact .inr rfl
    split
    · rw [List.append_cons result entry rest]
      refine ih hrest (List.forall_mem_cons.mp hwhole).2 ?_
      rw [List.length_append, List.length_singleton]
      omega
    · exact .inr rfl

theorem overBudget_iff (h : TrueSizes archive limits) :
    OverBudget archive limits ↔
      limits.maxUnpackedBytes < unpackedBytes archive + headerBytes archive := by
  obtain ⟨entries, haccepted⟩ := exists_accepted h.accepted
  have hcharges := charges_of_sized haccepted h.sized
  have hok : list archive limits = .ok entries ↔
      unpackedBytes archive + headerBytes archive ≤ limits.maxUnpackedBytes := by
    rw [list_ok_iff, hcharges]
    constructor
    · exact fun hlist => hlist.2.2.2.2
    · exact fun hfits => ⟨h.readable, haccepted, h.whole, h.count, hfits⟩
  have hends : list archive limits = .ok entries ∨ OverBudget archive limits := by
    have hloop := @listLoop_accepted limits archive.entries entries [] 0 {} haccepted h.whole
      (by simpa using h.count)
    rw [OverBudget, list, listMetered, h.readable.1]
    dsimp only
    generalize listLoop limits archive.entries [] 0 {} = outcome at hloop ⊢
    obtain ⟨listing, meter⟩ := outcome
    rcases hloop with rfl | rfl
    · rw [h.readable.2]
      exact .inl rfl
    · exact .inr rfl
  constructor
  · intro hover
    by_contra hfits
    have hlist := hok.mpr (by omega)
    rw [OverBudget, hlist] at hover
    cases hover
  · intro hexceeds
    refine hends.resolve_left fun hlist => ?_
    have := hok.mp hlist
    omega

/-- The size check is exact unless the entries fit and what is charged for them does not. -/
theorem budget_exact_iff (hlimit : limits.maxUnpackedBytes < 2 ^ 64) :
    NeverWraps archive limits ∧ (TrueSizes archive limits →
      ((OverBudget archive limits ↔ limits.maxUnpackedBytes < unpackedBytes archive) ↔
        ¬(unpackedBytes archive ≤ limits.maxUnpackedBytes ∧
          limits.maxUnpackedBytes < unpackedBytes archive + headerBytes archive))) := by
  refine ⟨fun add hadd => listLoopWith_eq hadd hlimit (Nat.zero_le _), ?_⟩
  intro h
  rw [overBudget_iff h]
  omega

end Budget

/-- One file of three bytes. -/
def threeBytes : Archive where
  fileSize := .ok 512
  entries := [fileEntry "a".toList "xxx".toList]

theorem trueSizes_threeBytes {limits : Limits} (hpath : Canonical "a".toList limits.maxPathBytes)
    (hopen : limits.maxArchiveBytes = 4294967296) (hcount : 1 ≤ limits.maxEntries) :
    TrueSizes threeBytes limits := by
  refine ⟨⟨?_, rfl⟩, ?_, hcount, by decide, by decide⟩
  · unfold openArchive
    rw [hopen]
    rfl
  · unfold threeBytes
    rw [List.forall_mem_singleton]
    exact ⟨_, entryOf_fileEntry _ (by decide) hpath⟩

/-- The three bytes are charged as six, and a budget of three is exceeded. -/
theorem not_budget_exact :
    TrueSizes threeBytes { maxUnpackedBytes := 3 } ∧
      ¬(OverBudget threeBytes { maxUnpackedBytes := 3 } ↔ 3 < unpackedBytes threeBytes) := by
  refine ⟨trueSizes_threeBytes (by decide) rfl (by decide), ?_⟩
  intro hexact
  have hover : OverBudget threeBytes { maxUnpackedBytes := 3 } := rfl
  exact absurd (hexact.mp hover) (by decide)

/-- A budget of six is not. -/
theorem budget_exact_six :
    OverBudget threeBytes { maxUnpackedBytes := 6 } ↔ 6 < unpackedBytes threeBytes := by
  have hsizes : TrueSizes threeBytes { maxUnpackedBytes := 6 } :=
    trueSizes_threeBytes (by decide) rfl (by decide)
  exact ((budget_exact_iff (by decide)).2 hsizes).mpr (by decide)

/-! ## What the functions take out of an archive -/

/-- At most `max_entries + 1` headers, and one buffer more than `max_unpacked_bytes`. -/
def Meter.Bounded (limits : Limits) (meter : Meter) : Prop :=
  meter.headers ≤ limits.maxEntries + 1 ∧ meter.bytes ≤ limits.maxUnpackedBytes + bufferSize

section List

variable {limits : Limits} {raws : List RawEntry} {result : List Entry} {unpacked : Nat}
  {meter : Meter}

/-- The loop of `list` pays for every byte that it reads, up to the last buffer. -/
theorem listLoop_meter (hcount : result.length ≤ limits.maxEntries)
    (hunpacked : unpacked ≤ limits.maxUnpackedBytes) :
    (listLoop limits raws result unpacked meter).2.headers + result.length ≤
        meter.headers + limits.maxEntries + 1 ∧
      (listLoop limits raws result unpacked meter).2.bytes + unpacked ≤
        meter.bytes + limits.maxUnpackedBytes + bufferSize := by
  induction raws generalizing result unpacked meter with
  | nil =>
    rw [listLoop]
    dsimp only
    exact ⟨by omega, by omega⟩
  | cons raw raws ih =>
    have hheader : meter.header.headers + result.length ≤ meter.headers + limits.maxEntries + 1 ∧
        meter.header.bytes + unpacked ≤ meter.bytes + limits.maxUnpackedBytes + bufferSize := by
      simp only [Meter.header]
      exact ⟨by omega, by omega⟩
    rw [listLoop]
    split
    · exact hheader
    split
    · exact hheader
    rename_i entry _
    split
    · exact hheader
    have hroom : unpacked + entry.size ≤ limits.maxUnpackedBytes := by omega
    dsimp only
    split
    · rename_i hok
      have hbytes : (discardEntry raw.body (unpacked + entry.size) limits.maxUnpackedBytes).bytes ≤
          raw.body.bytes.length := by
        rw [discardEntry_bytes hroom]
        exact le_trans (Nat.min_le_right _ _) raw.body.available_le
      have hfits := ((discardEntry_ok_iff hroom).mp hok).2
      rw [discardEntry_total hok]
      obtain ⟨hheaders, htaken⟩ := @ih (result ++ [entry]) _ (meter.header.pull
        (discardEntry raw.body (unpacked + entry.size) limits.maxUnpackedBytes).bytes)
        (by rw [List.length_append, List.length_singleton]; omega) hfits
      rw [List.length_append, List.length_singleton] at hheaders
      simp only [Meter.header, Meter.pull] at hheaders htaken ⊢
      exact ⟨by omega, by omega⟩
    · have hbytes := @discardEntry_bytes_le _ _ raw.body hroom
      simp only [Meter.header, Meter.pull]
      exact ⟨by omega, by omega⟩

theorem list_bounded (archive : Archive) (limits : Limits) :
    (listMetered archive limits).2.Bounded limits := by
  have hloop := @listLoop_meter limits archive.entries [] 0 {} (Nat.zero_le _) (Nat.zero_le _)
  have hmeter : (listMetered archive limits).2 = {} ∨
      (listMetered archive limits).2 = (listLoop limits archive.entries [] 0 {}).2 := by
    rw [listMetered]
    split
    · exact Or.inl rfl
    · refine Or.inr ?_
      split
      · rename_i hrun
        rw [hrun]
      · rename_i hrun
        rw [hrun]
        split <;> rfl
  rcases hmeter with hmeter | hmeter
  · rw [hmeter]
    exact ⟨Nat.zero_le _, Nat.zero_le _⟩
  · rw [hmeter]
    exact ⟨by simpa using hloop.1, by simpa using hloop.2⟩

end List

/-! ## The entries that `read` looks at -/

/-- `read` passes over this entry: it is accepted, another one is wanted, and its data is
whole and by itself within the limit. -/
def passesOver (limits : Limits) (wanted : Text) (raw : RawEntry) : Bool :=
  match entryOf raw limits with
  | .error _ => false
  | .ok entry =>
    entry.path ≠ wanted && !raw.body.broken && raw.body.bytes.length ≤ limits.maxUnpackedBytes

/-- The entries that `read` passes over, and the one behind them. -/
def lookedAt (limits : Limits) (wanted : Text) (raws : List RawEntry) : List RawEntry :=
  raws.takeWhile (passesOver limits wanted) ++ (raws.dropWhile (passesOver limits wanted)).take 1

/-- The bytes of an entry at which `read` arrives: of the wanted one its size, as far as it
has data; of another one all buffers up to the one that passes the limit. -/
def taken (limits : Limits) (wanted : Text) (maxBytes : Nat) (raw : RawEntry) : Nat :=
  match entryOf raw limits with
  | .error _ => 0
  | .ok entry =>
    if entry.path ≠ wanted then
      min ((limits.maxUnpackedBytes / bufferSize + 1) * bufferSize) raw.body.available
    else if entry.kind ≠ .regular ∨ entry.size > maxBytes then 0
    else if entry.size ≤ raw.body.bytes.length then entry.size
    else if raw.body.broken then 0
    else raw.body.bytes.length

/-- If the path is one that `read` accepts and the archive opens, then the entries that it
looks at are at most `max_entries + 1` and their data is within the bound. -/
def FirstEntriesFit (archive : Archive) (wanted : Text) (maxBytes : Nat) (limits : Limits) : Prop :=
  ∀ safe, safePath (some (CString.ofText wanted)) limits.maxPathBytes = .ok safe →
    openArchive archive limits = .ok () →
    (lookedAt limits safe archive.entries).length ≤ limits.maxEntries + 1 ∧
    ((lookedAt limits safe archive.entries).map (taken limits safe maxBytes)).sum ≤
      limits.maxUnpackedBytes + bufferSize

section Read

variable {limits : Limits} {wanted : Text} {maxBytes : Nat} {raw : RawEntry}
  {raws : List RawEntry} {meter : Meter}

theorem lookedAt_cons_of_passes (h : passesOver limits wanted raw = true) :
    lookedAt limits wanted (raw :: raws) = raw :: lookedAt limits wanted raws := by
  rw [lookedAt, List.takeWhile_cons_of_pos h, List.dropWhile_cons_of_pos h, List.cons_append,
    lookedAt]

theorem lookedAt_cons_of_stops (h : passesOver limits wanted raw = false) :
    lookedAt limits wanted (raw :: raws) = [raw] := by
  rw [lookedAt, List.takeWhile_cons_of_neg (by simp [h]), List.dropWhile_cons_of_neg (by simp [h])]
  rfl

/-- An entry that is not the wanted one is read by `discard_entry`. -/
theorem taken_of_path_ne {entry : Entry} (hentry : entryOf raw limits = .ok entry)
    (hpath : entry.path ≠ wanted) :
    taken limits wanted maxBytes raw =
      (discardEntry raw.body 0 limits.maxUnpackedBytes).bytes := by
  rw [taken, hentry, discardEntry_bytes (Nat.zero_le limits.maxUnpackedBytes)]
  exact if_pos hpath

theorem passesOver_of_path_ne {entry : Entry} (hentry : entryOf raw limits = .ok entry)
    (hpath : entry.path ≠ wanted) :
    passesOver limits wanted raw = (discardEntry raw.body 0 limits.maxUnpackedBytes).ok := by
  rw [Bool.eq_iff_iff, discardEntry_ok_iff (Nat.zero_le limits.maxUnpackedBytes), passesOver,
    hentry]
  simp [hpath]

theorem readLoop_meter :
    (readLoop limits wanted maxBytes raws meter).2 =
      { headers := meter.headers + (lookedAt limits wanted raws).length
        bytes := meter.bytes +
          ((lookedAt limits wanted raws).map (taken limits wanted maxBytes)).sum } := by
  induction raws generalizing meter with
  | nil => rfl
  | cons raw raws ih =>
    rw [readLoop]
    -- the entry at which the loop stops is the last one
    have hstop : ∀ bytes, passesOver limits wanted raw = false →
        taken limits wanted maxBytes raw = bytes →
        meter.header.pull bytes =
          { headers := meter.headers + (lookedAt limits wanted (raw :: raws)).length
            bytes := meter.bytes + ((lookedAt limits wanted (raw :: raws)).map
              (taken limits wanted maxBytes)).sum } := by
      intro bytes hpass htaken
      rw [lookedAt_cons_of_stops hpass, List.map_singleton, List.sum_singleton, htaken]
      rfl
    cases hentry : entryOf raw limits with
    | error message =>
      exact hstop 0 (by rw [passesOver, hentry]) (by rw [taken, hentry])
    | ok entry =>
      dsimp only
      by_cases hpath : entry.path ≠ wanted
      · have htaken := @taken_of_path_ne _ _ maxBytes _ _ hentry hpath
        have hpasses := passesOver_of_path_ne hentry hpath
        rw [if_pos hpath]
        split
        · rename_i hdiscarded
          rw [ih, lookedAt_cons_of_passes (hpasses.trans hdiscarded), List.map_cons, List.sum_cons,
            htaken, List.length_cons]
          simp only [Meter.header, Meter.pull, Meter.mk.injEq]
          exact ⟨by omega, by omega⟩
        · rename_i hdiscarded
          rw [Bool.not_eq_true] at hdiscarded
          exact hstop _ (hpasses.trans hdiscarded) htaken
      · have hpasses : passesOver limits wanted raw = false := by
          rw [passesOver, hentry]
          simp [hpath]
        rw [if_neg hpath]
        split
        · rename_i hrefused
          refine hstop 0 hpasses ?_
          rw [taken, hentry]
          dsimp only
          rw [if_neg hpath, if_pos hrefused]
        · rename_i hrefused
          refine hstop _ hpasses ?_
          rw [taken, hentry, fillLoop_eq (Nat.lt_succ_self _)]
          dsimp only
          rw [if_neg hpath, if_neg hrefused]
          split <;> rfl

/-- A call of `list` always keeps to the bounds; a call of `read` keeps to them if and only
if the entries it looks at do so together. -/
theorem budget_iff (archive : Archive) (limits : Limits) (wanted : Text) (maxBytes : Nat) :
    (listMetered archive limits).2.Bounded limits ∧
    ((readMetered archive wanted maxBytes limits).2.Bounded limits ↔
      FirstEntriesFit archive wanted maxBytes limits) := by
  refine ⟨list_bounded archive limits, ?_⟩
  have hnothing : Meter.Bounded limits {} := ⟨Nat.zero_le _, Nat.zero_le _⟩
  rw [readMetered, FirstEntriesFit]
  cases hpath : safePath (some (CString.ofText wanted)) limits.maxPathBytes with
  | error message =>
    refine iff_of_true hnothing ?_
    intro safe hsafe
    cases hsafe
  | ok safe =>
    cases hopen : openArchive archive limits with
    | error message =>
      refine iff_of_true hnothing ?_
      intro _ _ hok
      cases hok
    | ok opened =>
      dsimp only
      rw [Meter.Bounded, readLoop_meter]
      constructor
      · rintro ⟨hheaders, hbytes⟩ safe' hsafe _
        obtain rfl := Except.ok.inj hsafe
        exact ⟨by simpa using hheaders, by simpa using hbytes⟩
      · intro h
        obtain ⟨hheaders, hbytes⟩ := h safe rfl rfl
        exact ⟨by simpa using hheaders, by simpa using hbytes⟩

end Read

/-- Two files of the same size. -/
def twoFiles (size : Nat) : Archive where
  fileSize := .ok 4096
  entries := [fileEntry "a".toList (List.replicate size 'x'),
    fileEntry "b".toList (List.replicate size 'x')]

/-- Another file than the wanted one is read to its end. -/
theorem passesOver_fileEntry {limits : Limits} {path wanted bytes : Text} (hnul : '\x00' ∉ path)
    (h : Canonical path limits.maxPathBytes) (hpath : path ≠ wanted)
    (hbytes : bytes.length ≤ limits.maxUnpackedBytes) (maxBytes : Nat) :
    passesOver limits wanted (fileEntry path bytes) = true ∧
      taken limits wanted maxBytes (fileEntry path bytes) = bytes.length := by
  have hbody : (fileEntry path bytes).body = { bytes := bytes } := rfl
  rw [passesOver, taken, entryOf_fileEntry bytes hnul h, hbody]
  refine ⟨by simpa [hpath] using hbytes, ?_⟩
  have hwhole : ({ bytes := bytes } : Body).available = bytes.length := rfl
  dsimp only
  rw [if_pos hpath, hwhole, bufferSize_eq]
  omega

theorem read_twoFiles {size : Nat} (h : size ≤ 1073741824) :
    (readMetered (twoFiles size) ".PKGINFO".toList 1048576 {}).2.bytes = size + size := by
  have hlength : (List.replicate size 'x').length = size := List.length_replicate
  have hfits : (List.replicate size 'x').length ≤ 1073741824 := by rwa [hlength]
  have hwanted : safePath (some (CString.ofText ".PKGINFO".toList)) 4096 =
      .ok ".PKGINFO".toList := by rfl
  have hmeter : (readMetered (twoFiles size) ".PKGINFO".toList 1048576 {}).2 =
      (readLoop {} ".PKGINFO".toList 1048576 (twoFiles size).entries {}).2 := by
    rw [readMetered, hwanted]
    rfl
  obtain ⟨hpassA, htakenA⟩ := @passesOver_fileEntry {} "a".toList ".PKGINFO".toList _ (by decide)
    (by decide) (by decide) hfits 1048576
  obtain ⟨hpassB, htakenB⟩ := @passesOver_fileEntry {} "b".toList ".PKGINFO".toList _ (by decide)
    (by decide) (by decide) hfits 1048576
  rw [hmeter, readLoop_meter, twoFiles, lookedAt_cons_of_passes hpassA,
    lookedAt_cons_of_passes hpassB, List.map_cons, List.map_cons, List.sum_cons, List.sum_cons,
    htakenA, htakenB, hlength]
  simp [lookedAt]

/-- With the default limits `read` takes two gibibytes out of an archive with two large
files to find out that the metadata is missing. -/
theorem twoFiles_not_bounded :
    ¬ (readMetered (twoFiles 1073741824) ".PKGINFO".toList 1048576 {}).2.Bounded {} := by
  rintro ⟨_, hbytes⟩
  rw [read_twoFiles (Nat.le_refl _), bufferSize_eq] at hbytes
  simp at hbytes

end ExeCell.Package.ArchiveAdapter
