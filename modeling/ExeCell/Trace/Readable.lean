import Mathlib.Data.List.Basic
import Mathlib.Tactic.SplitIfs
import ExeCell.Trace.Endpoint

/-!
# What is mapped and what is read

`PTRACE_PEEKDATA` fetches whole words. A reader that goes through mapped data in words
also asks for the bytes behind its end, as far as the last word reaches
(`WordsMapped`). Where these are not mapped, a string loses the bytes of its last word and
an address is lost altogether (`reads_held_iff`).
-/

namespace ExeCell.Trace

/-- The bytes stand in mapped memory from the address on. -/
def Held (memory : Memory) (address : Nat) (bytes : List Char) : Prop :=
  ∀ index < bytes.length, memory (wrapAddress (address + index)) = bytes[index]?

/-- The given number of bytes from the address on is mapped. -/
def Mapped (memory : Memory) (address count : Nat) : Prop :=
  ∀ index < count, (memory (wrapAddress (address + index))).isSome

/-- All the words that begin within the first `count` bytes are mapped. -/
def WordsMapped (memory : Memory) (address count : Nat) : Prop :=
  Mapped memory address (wordSize * ((count + (wordSize - 1)) / wordSize))

/-- The given number of bytes from the address on. -/
def bytesAt (memory : Memory) (address count : Nat) : Option (List Char) :=
  (List.range count).mapM fun index => memory (wrapAddress (address + index))

instance (memory : Memory) (address : Nat) (bytes : List Char) :
    Decidable (Held memory address bytes) :=
  inferInstanceAs (Decidable (∀ index < bytes.length, _ = _))

instance (memory : Memory) (address count : Nat) : Decidable (Mapped memory address count) :=
  inferInstanceAs (Decidable (∀ index < count, _ = _))

instance (memory : Memory) (address count : Nat) : Decidable (WordsMapped memory address count) :=
  inferInstanceAs (Decidable (Mapped ..))

/-! ## Held bytes -/

section Held

variable {memory : Memory} {address count : Nat} {bytes front rest : List Char}

theorem held_append :
    Held memory address (front ++ rest) ↔
      Held memory address front ∧ Held memory (address + front.length) rest := by
  constructor
  · intro h
    constructor
    · intro index hindex
      rw [h index (by rw [List.length_append]; omega), List.getElem?_append_left hindex]
    · intro index hindex
      have hback := h (front.length + index) (by rw [List.length_append]; omega)
      rw [← Nat.add_assoc] at hback
      rw [hback, List.getElem?_append_right (Nat.le_add_right ..), Nat.add_sub_cancel_left]
  · rintro ⟨hfront, hrest⟩ index hindex
    rcases Nat.lt_or_ge index front.length with hlt | hge
    · rw [hfront index hlt, List.getElem?_append_left hlt]
    · have hback := hrest (index - front.length) (by rw [List.length_append] at hindex; omega)
      rw [List.getElem?_append_right hge, ← hback]
      congr 2
      omega

theorem Held.take (h : Held memory address bytes) (count : Nat) :
    Held memory address (bytes.take count) := by
  rw [← List.take_append_drop count bytes] at h
  exact (held_append.mp h).1

theorem Held.mapped (h : Held memory address bytes) (hcount : count ≤ bytes.length) :
    Mapped memory address count := by
  intro index hindex
  rw [h index (by omega), List.getElem?_eq_getElem (by omega)]
  rfl

/-- Bytes of one length at one address are the same. -/
theorem Held.unique {bytes' : List Char} (h : Held memory address bytes)
    (h' : Held memory address bytes') (hlength : bytes.length = bytes'.length) :
    bytes = bytes' := by
  apply List.ext_getElem?
  intro index
  rcases Nat.lt_or_ge index bytes.length with hlt | hge
  · rw [← h index hlt, h' index (by omega)]
  · rw [List.getElem?_eq_none hge, List.getElem?_eq_none (by omega)]

theorem mapped_add {more : Nat} :
    Mapped memory address (count + more) ↔
      Mapped memory address count ∧ Mapped memory (address + count) more := by
  constructor
  · intro h
    refine ⟨fun index hindex => h index (by omega), fun index hindex => ?_⟩
    rw [Nat.add_assoc]
    exact h (count + index) (by omega)
  · rintro ⟨hfront, hback⟩ index hindex
    rcases Nat.lt_or_ge index count with hlt | hge
    · exact hfront index hlt
    · have h := hback (index - count) (by omega)
      rwa [Nat.add_assoc, Nat.add_sub_cancel' hge] at h

/-- Mapped bytes are held. -/
theorem Mapped.held (h : Mapped memory address count) :
    ∃ bytes : List Char, bytes.length = count ∧ Held memory address bytes := by
  induction count with
  | zero => exact ⟨[], rfl, fun index hindex => absurd hindex (Nat.not_lt_zero _)⟩
  | succ count ih =>
    obtain ⟨hfront, hlast⟩ := mapped_add.mp h
    obtain ⟨bytes, hlength, hbytes⟩ := ih hfront
    obtain ⟨byte, hbyte⟩ := Option.isSome_iff_exists.mp (hlast 0 Nat.zero_lt_one)
    refine ⟨bytes ++ [byte], by simp [hlength], held_append.mpr ⟨hbytes, ?_⟩⟩
    intro index hindex
    obtain rfl : index = 0 := by simpa using hindex
    rw [hlength, hbyte]
    rfl

end Held

/-! ## One word -/

section Word

variable {memory : Memory} {address : Nat} {word bytes : List Char}

theorem mapM_eq_some_iff {α β : Type} {f : α → Option β} {xs : List α} {ys : List β} :
    xs.mapM f = some ys ↔ xs.map f = ys.map some := by
  induction xs generalizing ys with
  | nil => cases ys <;> simp
  | cons x xs ih =>
    rw [List.mapM_cons, List.map_cons]
    cases hx : f x with
    | none => cases ys <;> simp
    | some y =>
      cases hxs : xs.mapM f with
      | none =>
        have hnone : ∀ zs : List β, xs.map f ≠ zs.map some := fun zs hzs => by
          rw [ih.mpr hzs] at hxs
          cases hxs
        cases ys <;> simp [hnone]
      | some zs =>
        rw [ih.mp hxs]
        cases ys with
        | nil => simp
        | cons y' ys => simp [List.map_inj_right (fun _ _ => Option.some.inj)]

/-- Bytes that can be read are held. -/
theorem bytesAt_eq_some_iff {count : Nat} :
    bytesAt memory address count = some bytes ↔ bytes.length = count ∧ Held memory address bytes := by
  rw [bytesAt, mapM_eq_some_iff]
  constructor
  · intro h
    have hlength : bytes.length = count := by
      simpa using (congrArg List.length h).symm
    refine ⟨hlength, fun index hindex => ?_⟩
    have hat : ((List.range count).map fun i => memory (wrapAddress (address + i)))[index]? =
        (bytes.map some)[index]? := by rw [h]
    rw [List.getElem?_map, List.getElem?_map, List.getElem?_range (by omega),
      List.getElem?_eq_getElem hindex, Option.map_some, Option.map_some] at hat
    rw [Option.some.inj hat, List.getElem?_eq_getElem hindex]
  · rintro ⟨hlength, hheld⟩
    apply List.ext_getElem (by simp [hlength])
    intro index hindex hbytes
    rw [List.length_map] at hbytes
    rw [List.getElem_map, List.getElem_map, List.getElem_range, hheld index hbytes,
      List.getElem?_eq_getElem hbytes]

theorem peekData_eq_some_iff :
    peekData memory address = some word ↔ word.length = wordSize ∧ Held memory address word :=
  bytesAt_eq_some_iff

theorem peekData_eq_none (h : ¬ Mapped memory address wordSize) :
    peekData memory address = none := by
  cases hpeek : peekData memory address with
  | none => rfl
  | some word =>
    obtain ⟨hlength, hheld⟩ := peekData_eq_some_iff.mp hpeek
    exact absurd (hheld.mapped hlength.ge) h

/-- A word whose first bytes are known. -/
theorem peekData_of_mapped (h : Mapped memory address wordSize) (hheld : Held memory address bytes)
    (hlength : bytes.length ≤ wordSize) : ∃ rest, peekData memory address = some (bytes ++ rest) := by
  obtain ⟨word, hword, hsame⟩ := h.held
  have hstart : word.take bytes.length = bytes :=
    (hsame.take bytes.length).unique hheld (by rw [List.length_take]; omega)
  refine ⟨word.drop bytes.length, peekData_eq_some_iff.mpr ?_⟩
  have hwhole : bytes ++ word.drop bytes.length = word := by
    conv_lhs => rw [← hstart, List.length_take, Nat.min_eq_left (by omega)]
    exact List.take_append_drop ..
  rw [hwhole]
  exact ⟨hword, hsame⟩

end Word

/-! ## Strings -/

section Strings

variable {memory : Memory} {address rounds : Nat} {value word front rest : Text}

theorem scanWord_of_room (hword : '\x00' ∉ word)
    (hroom : value.length + word.length < maxStringSize) :
    scanWord value word = .inr (value ++ word) := by
  induction word generalizing value with
  | nil => rw [scanWord, List.append_nil]
  | cons byte word ih =>
    rw [List.mem_cons, not_or] at hword
    rw [List.length_cons] at hroom
    have hlength : (value ++ [byte]).length = value.length + 1 := by simp
    rw [scanWord, if_neg (Ne.symm hword.1), if_neg (by omega), ih hword.2 (by omega),
      List.append_assoc]
    rfl

theorem scanWord_of_full (hword : '\x00' ∉ word) (hne : word ≠ [])
    (hfull : value.length + word.length = maxStringSize) :
    scanWord value word =
      .inl { value := value ++ word, status := .truncated, bytes := maxStringSize } := by
  induction word generalizing value with
  | nil => exact absurd rfl hne
  | cons byte word ih =>
    rw [List.mem_cons, not_or] at hword
    rw [List.length_cons] at hfull
    have hlength : (value ++ [byte]).length = value.length + 1 := by simp
    rw [scanWord, if_neg (Ne.symm hword.1)]
    dsimp only
    cases word with
    | nil =>
      have hsize : (value ++ [byte]).length = maxStringSize := by rw [hlength, ← hfull]; rfl
      rw [if_pos hsize.ge, hsize]
    | cons next word =>
      rw [List.length_cons] at hfull
      have hleft : (value ++ [byte]).length + (next :: word).length = maxStringSize := by
        rw [hlength, List.length_cons]
        omega
      rw [List.length_cons] at hleft
      rw [if_neg (by omega), ih hword.2 (List.cons_ne_nil _ _) hleft, List.append_assoc]
      rfl

theorem scanWord_of_nul (hfront : '\x00' ∉ front)
    (hroom : value.length + front.length < maxStringSize) :
    scanWord value (front ++ '\x00' :: rest) =
      .inl { value := value ++ front, status := .complete, bytes := value.length + front.length } := by
  induction front generalizing value with
  | nil => rw [List.nil_append, scanWord, if_pos rfl, List.append_nil, List.length_nil]; rfl
  | cons byte front ih =>
    rw [List.mem_cons, not_or] at hfront
    rw [List.length_cons] at hroom
    have hlength : (value ++ [byte]).length = value.length + 1 := by simp
    rw [List.cons_append, scanWord, if_neg (Ne.symm hfront.1), if_neg (by omega),
      ih hfront.2 (by omega), List.append_assoc, hlength, List.length_cons, Nat.add_assoc,
      Nat.add_comm 1]
    rfl

/-- The string that is left to read, behind the bytes that have been collected. With its
NUL it is read whole or loses its last word. -/
theorem readWords_of_held (hrest : '\x00' ∉ rest)
    (hheld : Held memory (address + value.length) (rest ++ ['\x00']))
    (hroom : value.length + rest.length < maxStringSize)
    (hrounds : maxStringSize ≤ value.length + wordSize * rounds) :
    readWords memory address rounds value =
      if Mapped memory (address + value.length + wordSize * (rest.length / wordSize)) wordSize then
        { value := value ++ rest, status := .complete, bytes := value.length + rest.length }
      else
        { value := value ++ rest.take (wordSize * (rest.length / wordSize))
          status := .invalidAddress
          bytes := value.length + wordSize * (rest.length / wordSize) } := by
  induction rounds generalizing value rest with
  | zero => omega
  | succ rounds ih =>
    rw [readWords, if_pos (by omega)]
    rcases Nat.lt_or_ge rest.length wordSize with hlast | hmore
    · -- the NUL is in this word
      rw [Nat.div_eq_of_lt hlast, Nat.mul_zero, Nat.add_zero, Nat.add_zero, List.take_zero,
        List.append_nil]
      by_cases hmapped : Mapped memory (address + value.length) wordSize
      · obtain ⟨behind, hpeek⟩ := peekData_of_mapped hmapped hheld
          (by rw [List.length_append]; exact hlast)
        rw [if_pos hmapped, hpeek, List.append_assoc, List.singleton_append]
        dsimp only
        rw [scanWord_of_nul hrest hroom]
      · rw [if_neg hmapped, peekData_eq_none hmapped]
    · -- the word is within the string
      obtain ⟨word, rest, rfl, hword⟩ : ∃ word rest', rest = word ++ rest' ∧ word.length = wordSize :=
        ⟨rest.take wordSize, rest.drop wordSize, by simp, by simp [hmore]⟩
      rw [List.mem_append, not_or] at hrest
      rw [List.append_assoc] at hheld
      obtain ⟨hfront, hback⟩ := held_append.mp hheld
      have hlength : (value ++ word).length = value.length + wordSize := by simp [hword]
      rw [List.length_append, hword] at hroom hmore
      have hwords : wordSize * ((word ++ rest).length / wordSize) =
          wordSize + wordSize * (rest.length / wordSize) := by
        rw [List.length_append, hword, Nat.add_div_left _ (by decide), Nat.mul_succ, Nat.add_comm]
      have htake : ∀ count, (word ++ rest).take (wordSize + count) = word ++ rest.take count :=
        fun count => by rw [← hword, List.take_length_add_append]
      rw [Nat.mul_succ] at hrounds
      rw [peekData_eq_some_iff.mpr ⟨hword, hfront⟩]
      dsimp only
      rw [scanWord_of_room hrest.1 (by omega)]
      dsimp only
      rw [ih hrest.2 (by rw [hlength, ← Nat.add_assoc, ← hword]; exact hback) (by omega)
        (by omega), hwords, htake, hlength, List.length_append, hword]
      simp only [List.append_assoc, Nat.add_assoc]

/-- What is left to read of the first 4096 bytes of a longer string. -/
theorem readWords_of_long (hrest : '\x00' ∉ rest)
    (hheld : Held memory (address + value.length) rest) (hne : rest ≠ [])
    (hsize : value.length + rest.length = maxStringSize)
    (hrounds : maxStringSize = value.length + wordSize * rounds) :
    readWords memory address rounds value =
      { value := value ++ rest, status := .truncated, bytes := maxStringSize } := by
  induction rounds generalizing value rest with
  | zero =>
    have hnil : rest.length = 0 := by omega
    exact absurd (List.length_eq_zero_iff.mp hnil) hne
  | succ rounds ih =>
    rw [Nat.mul_succ] at hrounds
    have hpositive := List.length_pos_iff.mpr hne
    rw [readWords, if_pos (by omega)]
    obtain ⟨word, rest, rfl, hword⟩ : ∃ word rest', rest = word ++ rest' ∧ word.length = wordSize :=
      ⟨rest.take wordSize, rest.drop wordSize, by simp, by rw [List.length_take]; omega⟩
    rw [List.mem_append, not_or] at hrest
    obtain ⟨hfront, hback⟩ := held_append.mp hheld
    have hlength : (value ++ word).length = value.length + wordSize := by simp [hword]
    rw [List.length_append, hword] at hsize
    rw [peekData_eq_some_iff.mpr ⟨hword, hfront⟩]
    dsimp only
    by_cases hnil : rest = []
    · subst hnil
      rw [List.length_nil] at hsize
      rw [List.append_nil, scanWord_of_full hrest.1 (by rintro rfl; cases hword)
        (by rw [hword]; exact hsize)]
    · have hleft := List.length_pos_iff.mpr hnil
      rw [scanWord_of_room hrest.1 (by omega)]
      dsimp only
      rw [ih hrest.2 (by rw [hlength, ← Nat.add_assoc, ← hword]; exact hback) hnil (by omega)
        (by omega), List.append_assoc]

end Strings

/-! ## Addresses -/

section Addresses

variable {memory : Memory} {address count limit rounds length : Nat} {bytes copied : List Char}

theorem wordsMapped_word_add :
    WordsMapped memory address (wordSize + count) ↔
      Mapped memory address wordSize ∧ WordsMapped memory (address + wordSize) count := by
  have hwords : wordSize * ((wordSize + count + (wordSize - 1)) / wordSize) =
      wordSize + wordSize * ((count + (wordSize - 1)) / wordSize) := by
    rw [Nat.add_assoc, Nat.add_div_left _ (by decide), Nat.mul_succ, Nat.add_comm]
  rw [WordsMapped, hwords, mapped_add, WordsMapped]

theorem wordsMapped_of_le (hpositive : 0 < count) (hle : count ≤ wordSize) :
    WordsMapped memory address count ↔ Mapped memory address wordSize := by
  have hone : (count + (wordSize - 1)) / wordSize = 1 := by
    unfold wordSize at *
    omega
  rw [WordsMapped, hone, Nat.mul_one]

theorem WordsMapped.first (h : WordsMapped memory address count) (hpositive : 0 < count) :
    Mapped memory address wordSize := by
  rcases Nat.le_total count wordSize with hle | hge
  · exact (wordsMapped_of_le hpositive hle).mp h
  · rw [← Nat.add_sub_cancel' hge] at h
    exact (wordsMapped_word_add.mp h).1

theorem WordsMapped.mapped (h : WordsMapped memory address count) :
    Mapped memory address count := by
  intro index hindex
  apply h index
  unfold wordSize
  omega

theorem wordsMapped_zero : WordsMapped memory address 0 :=
  fun index hindex => absurd hindex (Nat.not_lt_zero index)

/-- What the copy loop returns, told without its words: the bytes up to the limit, when all
the words of them are mapped. -/
def Copies (memory : Memory) (address limit : Nat) (bytes copied : List Char) : Prop :=
  ∃ rest, copied = bytes ++ rest ∧ bytes.length + rest.length = limit ∧
    Held memory (address + bytes.length) rest ∧
    WordsMapped memory (address + bytes.length) rest.length

theorem copies_done (h : bytes.length = limit) :
    Copies memory address limit bytes copied ↔ bytes = copied := by
  constructor
  · rintro ⟨rest, rfl, hlength, _, _⟩
    have hnil : rest.length = 0 := by omega
    rw [List.length_eq_zero_iff.mp hnil, List.append_nil]
  · rintro rfl
    exact ⟨[], (List.append_nil _).symm, h, fun index hindex => absurd hindex (Nat.not_lt_zero _),
      wordsMapped_zero⟩

theorem copies_none (hmore : bytes.length < limit)
    (hpeek : peekData memory (address + bytes.length) = none) :
    ¬ Copies memory address limit bytes copied := by
  rintro ⟨rest, rfl, hlength, _, hwords⟩
  obtain ⟨word, hword, hheld⟩ := (hwords.first (by omega)).held
  rw [peekData_eq_some_iff.mpr ⟨hword, hheld⟩] at hpeek
  cases hpeek

theorem copies_word {word : List Char} (hmore : bytes.length < limit)
    (hpeek : peekData memory (address + bytes.length) = some word) :
    Copies memory address limit (bytes ++ word.take (limit - bytes.length)) copied ↔
      Copies memory address limit bytes copied := by
  obtain ⟨hword, hheld⟩ := peekData_eq_some_iff.mp hpeek
  have hmapped : Mapped memory (address + bytes.length) wordSize := hheld.mapped hword.ge
  rcases Nat.le_total (limit - bytes.length) wordSize with hlast | hwhole
  · -- the last word is cut at the limit
    have hpiece : (word.take (limit - bytes.length)).length = limit - bytes.length := by
      rw [List.length_take]
      omega
    rw [copies_done (by rw [List.length_append, hpiece]; omega)]
    constructor
    · rintro rfl
      refine ⟨_, rfl, by omega, hheld.take _, ?_⟩
      rw [hpiece]
      exact (wordsMapped_of_le (by omega) hlast).mpr hmapped
    · rintro ⟨rest, rfl, hlength, hrest, _⟩
      rw [(hheld.take _).unique hrest (by omega)]
  · rw [List.take_of_length_le (by omega)]
    have hlength : (bytes ++ word).length = bytes.length + wordSize := by simp [hword]
    constructor
    · rintro ⟨rest, rfl, hsize, hrest, hwords⟩
      rw [hlength, ← Nat.add_assoc] at hrest hwords
      refine ⟨word ++ rest, List.append_assoc .., ?_, held_append.mpr ⟨hheld, ?_⟩, ?_⟩
      · rw [List.length_append]
        omega
      · rw [hword]
        exact hrest
      · rw [List.length_append, hword]
        exact wordsMapped_word_add.mpr ⟨hmapped, hwords⟩
    · rintro ⟨rest, rfl, hsize, hrest, hwords⟩
      obtain ⟨front, rest, rfl, hfront⟩ :
          ∃ front rest', rest = front ++ rest' ∧ front.length = wordSize :=
        ⟨rest.take wordSize, rest.drop wordSize, by simp, by rw [List.length_take]; omega⟩
      obtain ⟨hfirst, hback⟩ := held_append.mp hrest
      obtain rfl : word = front := hheld.unique hfirst (by omega)
      rw [List.length_append, hword] at hsize hwords
      rw [hword] at hback
      refine ⟨rest, (List.append_assoc ..).symm, by omega, ?_, ?_⟩
      · rw [hlength, ← Nat.add_assoc]
        exact hback
      · rw [hlength, ← Nat.add_assoc]
        exact (wordsMapped_word_add.mp hwords).2

theorem copyStorage_eq_some_iff (hle : bytes.length ≤ limit)
    (hrounds : limit ≤ bytes.length + wordSize * rounds) :
    copyStorage memory address limit rounds bytes = some copied ↔
      Copies memory address limit bytes copied := by
  induction rounds generalizing bytes with
  | zero => rw [copyStorage, copies_done (by omega), Option.some.injEq]
  | succ rounds ih =>
    rw [Nat.mul_succ] at hrounds
    rw [copyStorage]
    by_cases hmore : bytes.length < limit
    · rw [if_pos hmore]
      cases hpeek : peekData memory (address + bytes.length) with
      | none => exact iff_of_false (by simp) (copies_none hmore hpeek)
      | some word =>
        dsimp only
        have hword := (peekData_eq_some_iff.mp hpeek).1
        have hlength : (bytes ++ word.take (limit - bytes.length)).length =
            bytes.length + min (limit - bytes.length) wordSize := by
          rw [List.length_append, List.length_take, hword]
        rw [ih (by omega) (by omega), copies_word hmore hpeek]
    · rw [if_neg hmore, copies_done (by omega), Option.some.injEq]

/-- The rendering of the bytes that were copied. -/
def renderAddress (copied : List Char) : Text :=
  let bytes := copied ++ List.replicate (storageSize - copied.length) '\x00'
  let family := byteAt bytes 0 + byteAt bytes 1 * 256
  if family = afInet then
    inetNtop4 bytes 4 ++ ':' :: Text.ofNat (groupAt bytes 2)
  else if family = afInet6 then
    '[' :: inetNtop6 bytes 8 ++ "]:".toList ++ Text.ofNat (groupAt bytes 2)
  else if family = afUnix then
    (bytes.drop 2).takeWhile (· ≠ '\x00')
  else "family=".toList ++ Text.ofNat family

/-- `read_endpoint` renders the bytes of the address, or nothing where a word of them is not
mapped. -/
theorem readEndpoint_of_held (h : Held memory address bytes)
    (hlength : bytes.length = min length storageSize)
    (hwords : WordsMapped memory address bytes.length) :
    readEndpoint memory address length = renderAddress bytes := by
  have hcopy : copyStorage memory address (min length storageSize) (storageSize / wordSize) [] =
      some bytes := by
    rw [copyStorage_eq_some_iff (Nat.zero_le _) (by
      rw [List.length_nil]
      exact (Nat.min_le_right ..).trans (by decide))]
    exact ⟨bytes, rfl, by rw [← hlength, List.length_nil, Nat.zero_add], h, hwords⟩
  rw [readEndpoint]
  dsimp only
  rw [hcopy]
  rfl

theorem readEndpoint_of_unmapped (h : ¬ WordsMapped memory address (min length storageSize)) :
    readEndpoint memory address length = [] := by
  have hcopy : copyStorage memory address (min length storageSize) (storageSize / wordSize) [] =
      none := by
    rw [Option.eq_none_iff_forall_ne_some]
    intro copied hcopied
    rw [copyStorage_eq_some_iff (Nat.zero_le _) (by
      rw [List.length_nil]
      exact (Nat.min_le_right ..).trans (by decide))] at hcopied
    obtain ⟨rest, _, hsize, _, hwords⟩ := hcopied
    rw [List.length_nil, Nat.zero_add] at hsize
    rw [hsize] at hwords
    exact h hwords
  rw [readEndpoint]
  dsimp only
  rw [hcopy]

/-- The family of an address. -/
def familyOf (bytes : List Char) : Nat := byteAt bytes 0 + byteAt bytes 1 * 256

/-- A `sockaddr_in` or a `sockaddr_in6`. -/
def IsInet (bytes : List Char) : Prop :=
  (familyOf bytes = afInet ∧ bytes.length = 16) ∨ (familyOf bytes = afInet6 ∧ bytes.length = 28)

instance (bytes : List Char) : Decidable (IsInet bytes) := inferInstanceAs (Decidable (_ ∨ _))

theorem byteAt_append {front rest : List Char} {index : Nat} (h : index < front.length) :
    byteAt (front ++ rest) index = byteAt front index := by
  rw [byteAt, List.getElem?_append_left h, byteAt]

theorem familyOf_append {front rest : List Char} (h : 2 ≤ front.length) :
    familyOf (front ++ rest) = familyOf front := by
  rw [familyOf, byteAt_append (by omega), byteAt_append (by omega), familyOf]

theorem renderAddress_ne_nil (hsize : 2 ≤ bytes.length)
    (h : familyOf bytes = afInet ∨ familyOf bytes = afInet6) : renderAddress bytes ≠ [] := by
  rw [← @familyOf_append bytes (List.replicate (storageSize - bytes.length) '\x00') hsize,
    familyOf] at h
  rw [renderAddress]
  rcases h with h | h
  · rw [h, if_pos rfl]
    simp
  · rw [h, if_neg (by decide), if_pos rfl]
    simp

/-- The words of a `sockaddr_in` end where it ends. -/
theorem wordsMapped_of_sockaddr_in (h : Held memory address bytes) (hsize : bytes.length = 16) :
    WordsMapped memory address (min bytes.length storageSize) := by
  rw [hsize]
  exact h.mapped hsize.ge

theorem readEndpoint_isInet (hinet : IsInet bytes) (h : Held memory address bytes)
    (hlength : bytes.length ≤ length) :
    readEndpoint memory address length ≠ [] ↔
      WordsMapped memory address (min length storageSize) := by
  constructor
  · intro hread
    by_contra hwords
    exact hread (readEndpoint_of_unmapped hwords)
  · intro hwords
    obtain ⟨all, hall, hheld⟩ := hwords.mapped.held
    have hsize : bytes.length ≤ all.length := by
      rw [hall]
      rcases hinet with ⟨_, hsize⟩ | ⟨_, hsize⟩ <;> rw [storageSize] <;> omega
    have hstart : all.take bytes.length = bytes :=
      (hheld.take bytes.length).unique h (by rw [List.length_take]; omega)
    have htwo : 2 ≤ bytes.length := by
      rcases hinet with ⟨_, hsize⟩ | ⟨_, hsize⟩ <;> omega
    rw [readEndpoint_of_held hheld hall (by rw [hall]; exact hwords)]
    apply renderAddress_ne_nil (by omega)
    rw [← List.take_append_drop bytes.length all, hstart, familyOf_append htwo]
    exact hinet.imp And.left And.left

end Addresses

theorem wordsMapped_string {memory : Memory} {address : Nat} {string : Text}
    (h : Held memory address string) :
    WordsMapped memory address (string.length + 1) ↔
      Mapped memory (address + wordSize * (string.length / wordSize)) wordSize := by
  have hwords : wordSize * ((string.length + 1 + (wordSize - 1)) / wordSize) =
      wordSize * (string.length / wordSize) + wordSize := by
    unfold wordSize
    omega
  rw [WordsMapped, hwords, mapped_add, and_iff_right (h.mapped (Nat.mul_div_le ..))]

/-- Mapped data is read as it is exactly when the words behind its start are mapped up to
its end; a string beyond the limit is always read up to the limit. -/
theorem reads_held_iff (memory : Memory) (address : Nat) :
    (∀ string : Text, '\x00' ∉ string → string.length < maxStringSize →
      Held memory address (string ++ ['\x00']) →
      (readProcessMemoryString memory address =
          { value := string, status := .complete, bytes := string.length } ↔
        WordsMapped memory address (string.length + 1))) ∧
    (∀ string : Text, '\x00' ∉ string → maxStringSize ≤ string.length →
      Held memory address string →
      readProcessMemoryString memory address =
        { value := string.take maxStringSize, status := .truncated, bytes := maxStringSize }) ∧
    ∀ (bytes : List Char) (length : Nat), IsInet bytes → Held memory address bytes →
      bytes.length ≤ length →
      (readEndpoint memory address length ≠ [] ↔
        WordsMapped memory address (min length storageSize)) := by
  refine ⟨fun string hnul hshort hheld => ?_, fun string hnul hlong hheld => ?_,
    fun bytes length hinet hheld hlength => readEndpoint_isInet hinet hheld hlength⟩
  · have hread := @readWords_of_held memory address (maxStringSize / wordSize) [] string hnul
      hheld (by simpa using hshort) (by decide)
    rw [readProcessMemoryString, hread, wordsMapped_string (held_append.mp hheld).1,
      List.length_nil, Nat.add_zero]
    split
    · rename_i hmapped
      exact iff_of_true (by rw [List.nil_append, Nat.zero_add]) hmapped
    · rename_i hmapped
      refine iff_of_false ?_ hmapped
      intro heq
      cases congrArg MemoryRead.status heq
  · have hsize : (string.take maxStringSize).length = maxStringSize := by
      rw [List.length_take]
      omega
    have hread := @readWords_of_long memory address (maxStringSize / wordSize) []
      (string.take maxStringSize) (fun hmem => hnul (List.mem_of_mem_take hmem))
      (hheld.take maxStringSize) (by
        rintro hnil
        rw [hnil] at hsize
        cases hsize) (by simpa using hsize) (by decide)
    rw [readProcessMemoryString, hread, List.nil_append]

/-- A page from 4096 to 8191, zeroed but for the bytes at its end. -/
def pageEndingIn (bytes : List Char) : Memory := fun address =>
  if 4096 ≤ address ∧ address < 8192 then
    some (if 8192 ≤ address + bytes.length then
      (bytes[address + bytes.length - 8192]?).getD '\x00' else '\x00')
  else none

theorem reads_held_iff_etc :
    readProcessMemoryString (pageEndingIn "/etc/passwd\x00".toList) 8180 =
        { value := "/etc/passwd".toList, status := .complete, bytes := 11 } ↔
      WordsMapped (pageEndingIn "/etc/passwd\x00".toList) 8180 12 :=
  (reads_held_iff (pageEndingIn "/etc/passwd\x00".toList) 8180).1 "/etc/passwd".toList
    (by decide) (by decide) (by decide +kernel)

/-- `sockaddr_in6` of `::1` with port 53. -/
def loopbackSix : List Char :=
  ['\x0a', '\x00', '\x00', '\x35'] ++ List.replicate 19 '\x00' ++
    ['\x01', '\x00', '\x00', '\x00', '\x00']

/-- At the end of a page `/f` is read as the empty string, and the address `::1` is not
rendered. -/
theorem pageEnd_unread :
    (Held (pageEndingIn "/f\x00".toList) 8189 ("/f".toList ++ ['\x00']) ∧
      readProcessMemoryString (pageEndingIn "/f\x00".toList) 8189 =
        { value := [], status := .invalidAddress, bytes := 0 }) ∧
    IsInet loopbackSix ∧ Held (pageEndingIn loopbackSix) 8164 loopbackSix ∧
      readEndpoint (pageEndingIn loopbackSix) 8164 28 = [] := by
  decide +kernel

end ExeCell.Trace
