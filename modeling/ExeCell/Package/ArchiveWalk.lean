import ExeCell.Package.Archive

/-!
# What the loops over an archive do

One specification for each loop of the adapter: `discard_entry` (`discardEntry_ok_iff`,
`discardEntry_total`, `discardEntry_bytes`), the loop that fills the result of `read`
(`fillLoop_eq`), and the loop of `list` (`listLoop_ok_iff`).
-/

namespace ExeCell.Package.ArchiveAdapter

/-! ## `entry_of` -/

/-- The four types of entries that are accepted. -/
theorem kindOf_cases {raw : RawEntry} {limits : Limits} {kind : Kind} {target : Text} {size : Nat}
    (h : kindOf raw limits = .ok (kind, target, size)) :
    (kind = .symlink ∧ raw.filetype = .symlink ∧
      safeLink raw.symlink limits.maxPathBytes = .ok target ∧ size = declaredSize raw) ∨
    (kind = .hardlink ∧ raw.filetype ≠ .symlink ∧
      safeLink raw.hardlink limits.maxPathBytes = .ok target ∧ size = declaredSize raw) ∨
    (kind = .regular ∧ raw.filetype = .regular ∧ raw.hardlink = none ∧ size = declaredSize raw) ∨
    (kind = .regular ∧ raw.filetype = .directory ∧ raw.hardlink = none ∧ size = 0) := by
  rw [kindOf] at h
  split at h
  · rename_i hsymlink
    split at h
    · cases h
    · rename_i htarget
      cases h
      exact Or.inl ⟨rfl, hsymlink, htarget, rfl⟩
  · rename_i hsymlink
    split at h
    · split at h
      · cases h
      · rename_i htarget
        cases h
        exact Or.inr (Or.inl ⟨rfl, hsymlink, htarget, rfl⟩)
    · rename_i hhardlink
      have hnone : raw.hardlink = none := by simpa using hhardlink
      split at h
      · rename_i hregular
        cases h
        exact Or.inr (Or.inr (Or.inl ⟨rfl, hregular, hnone, rfl⟩))
      · split at h
        · rename_i hdirectory
          cases h
          exact Or.inr (Or.inr (Or.inr ⟨rfl, hdirectory, hnone, rfl⟩))
        · cases h

/-- An accepted entry has passed the check of its path, of its type and of its mode. -/
theorem entryOf_ok_iff {raw : RawEntry} {limits : Limits} {entry : Entry} :
    entryOf raw limits = .ok entry ↔
      safePath raw.pathname limits.maxPathBytes = .ok entry.path ∧
      kindOf raw limits = .ok (entry.kind, entry.linkTarget, entry.size) ∧
      raw.mode &&& 3072 = 0 ∧ entry.mode = raw.mode := by
  rw [entryOf]
  cases hpath : safePath raw.pathname limits.maxPathBytes with
  | error message => simp
  | ok path =>
    cases hkind : kindOf raw limits with
    | error message => simp
    | ok found =>
      obtain ⟨kind, target, size⟩ := found
      obtain ⟨path', kind', target', size', mode'⟩ := entry
      dsimp only
      by_cases hmode : raw.mode &&& 3072 = 0
      · rw [if_neg (by simpa using hmode)]
        simp only [Except.ok.injEq, Entry.mk.injEq, Prod.mk.injEq, hmode, true_and, and_assoc]
        rw [@eq_comm _ mode']
      · rw [if_pos hmode]
        simp [hmode]

/-! ## `discard_entry` -/

/-- The bytes that reads into the whole buffer deliver: broken data fails at the last
buffer. -/
def Body.available (body : Body) : Nat :=
  if body.broken then body.bytes.length / bufferSize * bufferSize else body.bytes.length

section Discard

variable {limit fuel total : Nat} {body : Body}

theorem bufferSize_eq : bufferSize = 65536 := rfl

/-- The first read of the loop: it fails, it finds the end, or it gets some bytes. -/
theorem Body.read_cases (body : Body) :
    (body.read bufferSize = none ∧ body.broken = true ∧ body.bytes.length < bufferSize) ∨
    (body.read bufferSize = some ([], body) ∧ body.broken = false ∧ body.bytes = []) ∨
    (∃ chunk rest, body.read bufferSize = some (chunk, { body with bytes := rest }) ∧
      chunk ≠ [] ∧ body.bytes = chunk ++ rest ∧ chunk.length = min bufferSize body.bytes.length ∧
      (body.broken = true → bufferSize ≤ body.bytes.length)) := by
  rw [Body.read]
  by_cases hfails : body.broken ∧ body.bytes.length < bufferSize
  · exact Or.inl ⟨if_pos hfails, hfails⟩
  · rw [if_neg hfails]
    by_cases hempty : body.bytes = []
    · have hbroken : body.broken = false := by
        by_contra hbroken
        rw [Bool.not_eq_false] at hbroken
        exact hfails ⟨hbroken, by rw [hempty]; decide⟩
      refine Or.inr (Or.inl ⟨?_, hbroken, hempty⟩)
      rw [hempty, List.take_nil, List.drop_nil, ← hempty]
    · refine Or.inr (Or.inr ⟨body.bytes.take bufferSize, body.bytes.drop bufferSize, rfl, ?_,
        (List.take_append_drop ..).symm, List.length_take, ?_⟩)
      · rw [ne_eq, List.take_eq_nil_iff, not_or]
        exact ⟨by decide, hempty⟩
      · intro hbroken
        by_contra hless
        exact hfails ⟨hbroken, by omega⟩

/-- An entry is discarded completely if its data is whole and fits. -/
theorem discardLoop_ok_iff (hfuel : body.bytes.length < fuel) (htotal : total ≤ limit) :
    (discardLoop limit fuel body total).ok = true ↔
      body.broken = false ∧ total + body.bytes.length ≤ limit := by
  induction fuel generalizing body total with
  | zero => omega
  | succ fuel ih =>
    rw [discardLoop]
    obtain ⟨hread, hbroken, _⟩ | ⟨hread, hbroken, hempty⟩ |
      ⟨chunk, rest, hread, hne, hbytes, hchunk, hbroken⟩ := body.read_cases
    · rw [hread]
      simp [hbroken]
    · rw [hread]
      simp [hbroken, hempty, htotal]
    · have hpos : 0 < chunk.length := List.length_pos_iff.mpr hne
      have hlength : body.bytes.length = chunk.length + rest.length := by
        rw [hbytes, List.length_append]
      rw [hread]
      simp only [if_neg hne]
      split
      · simp only [Bool.false_eq_true, false_iff, not_and]
        intro _
        omega
      · have hfits : total + chunk.length ≤ limit := by omega
        rw [ih (show rest.length < fuel by omega) hfits]
        simp only [hlength, Nat.add_assoc]

theorem discardLoop_total (hfuel : body.bytes.length < fuel)
    (h : (discardLoop limit fuel body total).ok = true) :
    (discardLoop limit fuel body total).total = total + body.bytes.length := by
  induction fuel generalizing body total with
  | zero => omega
  | succ fuel ih =>
    rw [discardLoop] at h ⊢
    obtain ⟨hread, _, _⟩ | ⟨hread, _, hempty⟩ |
      ⟨chunk, rest, hread, hne, hbytes, _, _⟩ := body.read_cases
    · rw [hread] at h
      cases h
    · rw [hread]
      simp [hempty]
    · have hpos : 0 < chunk.length := List.length_pos_iff.mpr hne
      have hlength : body.bytes.length = chunk.length + rest.length := by
        rw [hbytes, List.length_append]
      rw [hread] at h ⊢
      simp only [if_neg hne] at h ⊢
      split at h
      · cases h
      · rename_i hfits
        rw [if_neg hfits]
        simp only
        rw [ih (show rest.length < fuel by omega) h, hlength, Nat.add_assoc]

theorem Body.available_le (body : Body) : body.available ≤ body.bytes.length := by
  rw [Body.available]
  split
  · exact Nat.div_mul_le_self ..
  · exact le_rfl

/-- What is available behind a buffer that has been filled or has reached the end. -/
theorem Body.available_append {broken : Bool} {chunk rest : Text}
    (hchunk : chunk.length = min bufferSize (chunk.length + rest.length))
    (hbroken : broken = true → bufferSize ≤ chunk.length + rest.length) :
    ({ bytes := chunk ++ rest, broken := broken } : Body).available =
      chunk.length + ({ bytes := rest, broken := broken } : Body).available := by
  simp only [Body.available, List.length_append]
  cases broken with
  | true =>
    have hfull : chunk.length = bufferSize := by
      have hlong := hbroken rfl
      omega
    rw [if_pos rfl, if_pos rfl, hfull, Nat.add_comm, Nat.add_div_right _ (by decide), Nat.succ_mul,
      Nat.add_comm]
  | false => rfl

/-- A buffer that passes the limit is the last one. -/
theorem last_buffer {room chunk later size : Nat} (hfull : chunk ≤ size)
    (hlast : chunk < size → later = 0) (h : chunk > room) :
    chunk = min ((room / size + 1) * size) (chunk + later) := by
  rw [Nat.div_eq_of_lt (by omega)]
  omega

theorem more_buffers {room chunk later size : Nat} (hpos : 0 < chunk) (hfull : chunk ≤ size)
    (hlast : chunk < size → later = 0) (h : chunk ≤ room) :
    chunk + min (((room - chunk) / size + 1) * size) later =
      min ((room / size + 1) * size) (chunk + later) := by
  by_cases hchunk : chunk < size
  · have hle : size ≤ (room / size + 1) * size := Nat.le_mul_of_pos_left _ (Nat.succ_pos _)
    rw [hlast hchunk]
    omega
  · obtain rfl : chunk = size := by omega
    rw [Nat.div_eq_sub_div hpos h, Nat.add_mul (_ + 1), Nat.one_mul]
    omega

/-- The loop reads whole buffers until one of them passes the limit. -/
theorem discardLoop_bytes (hfuel : body.bytes.length < fuel) (htotal : total ≤ limit) :
    (discardLoop limit fuel body total).bytes =
      min (((limit - total) / bufferSize + 1) * bufferSize) body.available := by
  induction fuel generalizing body total with
  | zero => omega
  | succ fuel ih =>
    rw [discardLoop]
    obtain ⟨hread, hbroken, hshort⟩ | ⟨hread, hbroken, hempty⟩ |
      ⟨chunk, rest, hread, hne, hbytes, hchunk, hbroken⟩ := body.read_cases
    · rw [hread, Body.available, if_pos hbroken, Nat.div_eq_of_lt hshort]
      simp
    · rw [hread, Body.available, hbroken, hempty]
      simp
    · have hpos : 0 < chunk.length := List.length_pos_iff.mpr hne
      have hlength : body.bytes.length = chunk.length + rest.length := by
        rw [hbytes, List.length_append]
      rw [hlength] at hchunk hbroken
      have havailable : body.available =
          chunk.length + ({ body with bytes := rest } : Body).available := by
        rw [← Body.available_append hchunk hbroken, ← hbytes]
      have hlast : chunk.length < bufferSize →
          ({ body with bytes := rest } : Body).available = 0 := by
        intro hpart
        have hlater : ({ body with bytes := rest } : Body).available ≤ rest.length :=
          Body.available_le _
        omega
      rw [hread, havailable]
      simp only [if_neg hne]
      split
      · show chunk.length = _
        exact last_buffer (by omega) hlast (by omega)
      · have hfits : total + chunk.length ≤ limit := by omega
        have hrest : rest.length < fuel := by omega
        have hmore := more_buffers hpos (by omega) hlast (show chunk.length ≤ limit - total by omega)
        rw [Nat.sub_sub] at hmore
        rw [← hmore, ← ih hrest hfits]

theorem discardEntry_ok_iff (htotal : total ≤ limit) :
    (discardEntry body total limit).ok = true ↔
      body.broken = false ∧ total + body.bytes.length ≤ limit :=
  discardLoop_ok_iff (Nat.lt_succ_self _) htotal

theorem discardEntry_total (h : (discardEntry body total limit).ok = true) :
    (discardEntry body total limit).total = total + body.bytes.length :=
  discardLoop_total (Nat.lt_succ_self _) h

theorem discardEntry_bytes (htotal : total ≤ limit) :
    (discardEntry body total limit).bytes =
      min (((limit - total) / bufferSize + 1) * bufferSize) body.available :=
  discardLoop_bytes (Nat.lt_succ_self _) htotal

/-- No call reads more than one buffer past the limit. -/
theorem discardEntry_bytes_le (htotal : total ≤ limit) :
    total + (discardEntry body total limit).bytes ≤ limit + bufferSize := by
  rw [discardEntry_bytes htotal, bufferSize_eq]
  omega

end Discard

/-! ## The wanted entry -/

/-- The result of `read` for the data of the entry, and the bytes read. -/
theorem fillLoop_eq {fuel missing : Nat} {body : Body} {result : Text} (hfuel : missing < fuel) :
    fillLoop fuel body missing result =
      if missing ≤ body.bytes.length then (.ok (result ++ body.bytes.take missing), missing)
      else (.error "archive entry read failed".toList,
        if body.broken then 0 else body.bytes.length) := by
  cases fuel with
  | zero => omega
  | succ fuel =>
    generalize hmessage : "archive entry read failed".toList = message
    rw [fillLoop, hmessage]
    by_cases hnone : missing = 0
    · simp [hnone]
    · rw [if_neg hnone]
      by_cases henough : missing ≤ body.bytes.length
      · -- one read gives everything
        have hread : body.read missing =
            some (body.bytes.take missing, { body with bytes := body.bytes.drop missing }) :=
          if_neg (by omega)
        have hlength : (body.bytes.take missing).length = missing := by
          rw [List.length_take, Nat.min_eq_left henough]
        have hne : body.bytes.take missing ≠ [] := by
          rw [← List.length_pos_iff, hlength]
          omega
        rw [hread, if_pos henough]
        simp only [if_neg hne, hlength, Nat.sub_self]
        cases fuel with
        | zero => rfl
        | succ fuel => simp [fillLoop]
      · rw [if_neg henough]
        cases hbroken : body.broken with
        | true =>
          have hread : body.read missing = none := if_pos ⟨hbroken, by omega⟩
          rw [hread]
          rfl
        | false =>
          have hread : body.read missing = some (body.bytes, { body with bytes := [] }) := by
            rw [Body.read, if_neg (by simp [hbroken]), List.take_of_length_le (by omega),
              List.drop_of_length_le (by omega)]
          rw [hread]
          by_cases hempty : body.bytes = []
          · simp [hempty]
          · -- the second read finds the end
            have hpos : 0 < body.bytes.length := List.length_pos_iff.mpr hempty
            have hend : ({ body with bytes := [] } : Body).read
                (missing - body.bytes.length) = some ([], { body with bytes := [] }) := by
              simp [Body.read, hbroken]
            simp only [if_neg hempty]
            cases fuel with
            | zero => omega
            | succ fuel =>
              rw [fillLoop, if_neg (by omega), hend, hmessage]
              simp

/-! ## The loop of `list` -/

/-- Every entry of the archive is accepted, and these are the results. -/
def Accepted (limits : Limits) (raws : List RawEntry) (entries : List Entry) : Prop :=
  raws.map (entryOf · limits) = entries.map .ok

/-- What `list` adds to its budget for an entry: the size that the header declares, and
once more the bytes of the data. -/
def charge (raw : RawEntry) (entry : Entry) : Nat := entry.size + raw.body.bytes.length

def charges (raws : List RawEntry) (entries : List Entry) : Nat :=
  (List.zipWith charge raws entries).sum

section List

variable {limits : Limits} {raws : List RawEntry} {raw : RawEntry} {entry : Entry}
  {entries result result' : List Entry} {unpacked : Nat} {meter : Meter}

theorem accepted_nil : Accepted limits [] entries ↔ entries = [] := by
  rw [Accepted, List.map_nil, eq_comm, List.map_eq_nil_iff]

theorem accepted_cons : Accepted limits (raw :: raws) entries ↔
    ∃ entry rest, entryOf raw limits = .ok entry ∧ Accepted limits raws rest ∧
      entries = entry :: rest := by
  constructor
  · intro h
    cases entries with
    | nil => cases h
    | cons entry rest =>
      obtain ⟨hentry, hrest⟩ := List.cons.inj h
      exact ⟨entry, rest, hentry, hrest, rfl⟩
  · rintro ⟨entry, rest, hentry, hrest, rfl⟩
    rw [Accepted, List.map_cons, List.map_cons, hentry, hrest]

theorem Accepted.exists_raw (h : Accepted limits raws entries) (hentry : entry ∈ entries) :
    ∃ raw ∈ raws, entryOf raw limits = .ok entry := by
  have hmem : (.ok entry : Except Text Entry) ∈ entries.map .ok := List.mem_map_of_mem hentry
  rw [← h] at hmem
  exact List.mem_map.mp hmem

theorem Accepted.exists_entry (h : Accepted limits raws entries) (hraw : raw ∈ raws) :
    ∃ entry ∈ entries, entryOf raw limits = .ok entry := by
  have hmem : entryOf raw limits ∈ raws.map (entryOf · limits) := List.mem_map_of_mem hraw
  rw [h] at hmem
  obtain ⟨entry, hentry, heq⟩ := List.mem_map.mp hmem
  exact ⟨entry, hentry, heq.symm⟩

theorem Accepted.le_charges (h : Accepted limits raws entries) (hraw : raw ∈ raws) :
    raw.body.bytes.length ≤ charges raws entries := by
  induction raws generalizing entries with
  | nil => cases hraw
  | cons first raws ih =>
    obtain ⟨entry, rest, _, hrest, rfl⟩ := accepted_cons.mp h
    have hcharge : charges (first :: raws) (entry :: rest) =
        entry.size + first.body.bytes.length + charges raws rest := rfl
    rcases List.mem_cons.mp hraw with rfl | hraw
    · omega
    · have := ih hrest hraw
      omega

/-- The entries are all accepted, whole, within the number of entries and within the budget,
and give one result each. -/
def ListsTo (limits : Limits) (raws : List RawEntry) (result : List Entry) (unpacked : Nat)
    (result' : List Entry) : Prop :=
  ∃ entries, result' = result ++ entries ∧ Accepted limits raws entries ∧
    (∀ raw ∈ raws, raw.body.broken = false) ∧
    result.length + raws.length ≤ limits.maxEntries ∧
    unpacked + charges raws entries ≤ limits.maxUnpackedBytes

theorem ListsTo.bounds (h : ListsTo limits raws result unpacked result') :
    result.length ≤ limits.maxEntries ∧ unpacked ≤ limits.maxUnpackedBytes := by
  obtain ⟨entries, _, _, _, hlength, hbudget⟩ := h
  exact ⟨by omega, by omega⟩

theorem listsTo_nil (hcount : result.length ≤ limits.maxEntries)
    (hunpacked : unpacked ≤ limits.maxUnpackedBytes) :
    ListsTo limits [] result unpacked result' ↔ result' = result := by
  simp only [ListsTo, accepted_nil]
  constructor
  · rintro ⟨entries, rfl, rfl, _⟩
    exact List.append_nil _
  · rintro rfl
    exact ⟨[], (List.append_nil _).symm, rfl, by simp, hcount, by simpa [charges] using hunpacked⟩

theorem listsTo_cons :
    ListsTo limits (raw :: raws) result unpacked result' ↔
      ∃ entry, entryOf raw limits = .ok entry ∧ raw.body.broken = false ∧
        ListsTo limits raws (result ++ [entry])
          (unpacked + entry.size + raw.body.bytes.length) result' := by
  have hcharge : ∀ entry rest, charges (raw :: raws) (entry :: rest) =
      entry.size + raw.body.bytes.length + charges raws rest := fun entry rest => rfl
  constructor
  · rintro ⟨entries, rfl, haccepted, hwhole, hlength, hbudget⟩
    obtain ⟨entry, rest, hentry, hrest, rfl⟩ := accepted_cons.mp haccepted
    obtain ⟨hraw, hraws⟩ := List.forall_mem_cons.mp hwhole
    rw [hcharge] at hbudget
    rw [List.length_cons] at hlength
    refine ⟨entry, hentry, hraw, rest, by simp, hrest, hraws, ?_, by omega⟩
    rw [List.length_append, List.length_singleton]
    omega
  · rintro ⟨entry, hentry, hraw, rest, rfl, hrest, hraws, hlength, hbudget⟩
    rw [List.length_append, List.length_singleton] at hlength
    refine ⟨entry :: rest, by simp, accepted_cons.mpr ⟨entry, rest, hentry, hrest, rfl⟩,
      List.forall_mem_cons.mpr ⟨hraw, hraws⟩, ?_, ?_⟩
    · rw [List.length_cons]
      omega
    · rw [hcharge]
      omega

/-- The loop succeeds exactly for entries that are all accepted, whole, within the
number of entries and within the budget, and returns one result for each. -/
theorem listLoop_ok_iff (hcount : result.length ≤ limits.maxEntries)
    (hunpacked : unpacked ≤ limits.maxUnpackedBytes) :
    (listLoop limits raws result unpacked meter).1 = .ok result' ↔
      ListsTo limits raws result unpacked result' := by
  induction raws generalizing result unpacked meter with
  | nil =>
    rw [listLoop, listsTo_nil hcount hunpacked, Except.ok.injEq]
    exact eq_comm
  | cons raw raws ih =>
    rw [listLoop, listsTo_cons]
    by_cases hfull : result.length ≥ limits.maxEntries
    · rw [if_pos hfull]
      refine iff_of_false (by simp) ?_
      rintro ⟨entry, _, _, hrest⟩
      have hlength := hrest.bounds.1
      rw [List.length_append, List.length_singleton] at hlength
      omega
    rw [if_neg hfull]
    cases hentry : entryOf raw limits with
    | error message => simp
    | ok entry =>
      simp only [Except.ok.injEq, exists_eq_left']
      by_cases hsize : entry.size > limits.maxUnpackedBytes - min unpacked limits.maxUnpackedBytes
      · rw [if_pos hsize]
        refine iff_of_false (by simp) ?_
        rintro ⟨_, hrest⟩
        have hbudget := hrest.bounds.2
        omega
      rw [if_neg hsize]
      have hroom : unpacked + entry.size ≤ limits.maxUnpackedBytes := by omega
      have hdiscard := @discardEntry_ok_iff _ _ raw.body hroom
      by_cases hok : (discardEntry raw.body (unpacked + entry.size) limits.maxUnpackedBytes).ok = true
      · obtain ⟨hwhole, hfits⟩ := hdiscard.mp hok
        rw [if_pos hok, discardEntry_total hok, and_iff_right hwhole]
        exact ih (by rw [List.length_append, List.length_singleton]; omega) hfits
      · rw [if_neg hok]
        refine iff_of_false (by simp) ?_
        rintro ⟨hwhole, hrest⟩
        exact hok (hdiscard.mpr ⟨hwhole, hrest.bounds.2⟩)

/-- The archive opens and its iteration ends without an error. -/
def Readable (archive : Archive) (limits : Limits) : Prop :=
  openArchive archive limits = .ok () ∧ archive.iterationError = none

theorem list_ok_iff {archive : Archive} : list archive limits = .ok entries ↔
    Readable archive limits ∧ Accepted limits archive.entries entries ∧
      (∀ raw ∈ archive.entries, raw.body.broken = false) ∧
      archive.entries.length ≤ limits.maxEntries ∧
      charges archive.entries entries ≤ limits.maxUnpackedBytes := by
  have hloop := @listLoop_ok_iff limits archive.entries [] entries 0 {} (Nat.zero_le _)
    (Nat.zero_le _)
  rw [list, listMetered, Readable]
  cases hopen : openArchive archive limits with
  | error message => simp
  | ok opened =>
    obtain ⟨⟩ := opened
    dsimp only
    generalize hrun : listLoop limits archive.entries [] 0 {} = outcome at hloop ⊢
    obtain ⟨listing, meter⟩ := outcome
    cases listing with
    | error message =>
      refine iff_of_false (by simp) ?_
      rintro ⟨_, haccepted, hwhole, hlength, hbudget⟩
      exact absurd (hloop.mpr ⟨entries, rfl, haccepted, hwhole, by simpa using hlength,
        by simpa using hbudget⟩) (by simp)
    | ok listed =>
      cases hend : archive.iterationError with
      | some message => simp
      | none =>
        dsimp only at hloop ⊢
        rw [hloop]
        simp [ListsTo]

/-- Every entry of an archive that `list` accepts is whole and within the limit. -/
theorem entry_of_list {archive : Archive} (h : list archive limits = .ok entries)
    (hraw : raw ∈ archive.entries) :
    (∃ entry ∈ entries, entryOf raw limits = .ok entry) ∧ raw.body.broken = false ∧
      raw.body.bytes.length ≤ limits.maxUnpackedBytes := by
  obtain ⟨_, haccepted, hwhole, _, hbudget⟩ := list_ok_iff.mp h
  exact ⟨haccepted.exists_entry hraw, hwhole raw hraw,
    le_trans (haccepted.le_charges hraw) hbudget⟩

end List

end ExeCell.Package.ArchiveAdapter
