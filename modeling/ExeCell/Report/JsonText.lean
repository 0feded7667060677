import ExeCell.Lib.JsonPieces
import ExeCell.Report.Json

/-!
# What the JSON reporter writes reads as

`write_json_string` writes a control byte as `\u00` and its value in hexadecimal, without
padding. For a byte below `0x10` that is one digit too few: whatever is written next is
taken for the last digit. `readBack` is what a literal reads as, and `writeJsonString_iff`
says when that is the text that was written.
-/

namespace ExeCell.Report

open Json

/-- A byte whose escape is one digit short. -/
def shortControl (c : Char) : Bool := c.toNat < 0x10 && c ≠ '\n' && c ≠ '\r' && c ≠ '\t'

/-- The units that the literal of a text reads as. -/
def readBack : Text → Option (List Nat)
  | [] => some []
  | c :: text =>
    if shortControl c then
      match text with
      | [] => none
      | d :: text => (hexDigit d).bind fun h => (readBack text).map ((c.toNat * 16 + h) :: ·)
    else (readBack text).map (c.toNat :: ·)

theorem readBack_short {c : Char} (h : shortControl c = true) (d : Char) (text : Text) :
    readBack (c :: d :: text) =
      (hexDigit d).bind fun h => (readBack text).map ((c.toNat * 16 + h) :: ·) := by
  rw [readBack.eq_def]
  exact if_pos h

theorem readBack_long {c : Char} (h : shortControl c = false) (text : Text) :
    readBack (c :: text) = (readBack text).map (c.toNat :: ·) := by
  rw [readBack.eq_def]
  exact if_neg (by simp [h])

/-! ## One byte -/

theorem shortControl_lt {c : Char} (h : shortControl c = true) : c.toNat < 0x10 := by
  simp only [shortControl, Bool.and_eq_true, decide_eq_true_eq] at h
  exact h.1.1.1

/-- A control byte that is not a line end or a tab is written in hexadecimal. -/
theorem escapeJsonChar_control {c : Char} (hcontrol : c.toNat < 0x20) (hline : c ≠ '\n')
    (hreturn : c ≠ '\r') (htab : c ≠ '\t') :
    escapeJsonChar c = '\\' :: 'u' :: '0' :: '0' :: Nat.toDigits 16 c.toNat := by
  have hquote : c ≠ '"' := by
    rintro rfl
    exact absurd hcontrol (by decide)
  have hslash : c ≠ '\\' := by
    rintro rfl
    exact absurd hcontrol (by decide)
  rw [escapeJsonChar, if_neg hquote, if_neg hslash, if_neg hline, if_neg hreturn, if_neg htab,
    if_pos hcontrol]
  rfl

theorem escapeJsonChar_short {c : Char} (h : shortControl c = true) :
    escapeJsonChar c = ['\\', 'u', '0', '0', Nat.digitChar c.toNat] := by
  have hlt := shortControl_lt h
  simp only [shortControl, Bool.and_eq_true, decide_eq_true_eq] at h
  rw [escapeJsonChar_control (by omega) h.1.1.2 h.1.2 h.2, Nat.toDigits_of_lt_base hlt]

theorem hexDigit_digitChar {n : Nat} (h : n < 16) : hexDigit (Nat.digitChar n) = some n := by
  have hall : ∀ n < 16, hexDigit (Nat.digitChar n) = some n := by decide
  exact hall n h

/-- A byte that is not short is read back as itself. -/
theorem string_escapeJsonChar {c : Char} (h : shortControl c = false) (text : Text) :
    string (escapeJsonChar c ++ text) = (string text).map (unit c.toNat) := by
  by_cases hquote : c = '"'
  · subst hquote
    exact string_short rfl text
  by_cases hslash : c = '\\'
  · subst hslash
    exact string_short rfl text
  by_cases hline : c = '\n'
  · subst hline
    exact string_short rfl text
  by_cases hreturn : c = '\r'
  · subst hreturn
    exact string_short rfl text
  by_cases htab : c = '\t'
  · subst htab
    exact string_short rfl text
  by_cases hcontrol : c.toNat < 0x20
  · have hlong : 0x10 ≤ c.toNat := by
      by_contra hlt
      rw [shortControl] at h
      simp [hline, hreturn, htab] at h
      omega
    have hdigits : Nat.toDigits 16 c.toNat = ['1', Nat.digitChar (c.toNat - 16)] := by
      rw [Nat.toDigits_of_base_le (by decide) hlong, show c.toNat / 16 = 1 by omega,
        show c.toNat % 16 = c.toNat - 16 by omega]
      rfl
    have hfour : hexFour '0' '0' '1' (Nat.digitChar (c.toNat - 16)) = some c.toNat := by
      have hlast := @hexDigit_digitChar (c.toNat - 16) (by omega)
      have hzero : hexDigit '0' = some 0 := by decide
      have hone : hexDigit '1' = some 1 := by decide
      rw [hexFour, hlast, hzero, hone]
      simp only [Option.some.injEq]
      omega
    rw [escapeJsonChar_control hcontrol hline hreturn htab, hdigits]
    simp only [List.cons_append, List.nil_append, string_unicode, hfour, Option.bind_some]
  · rw [escapeJsonChar, if_neg hquote, if_neg hslash, if_neg hline, if_neg hreturn, if_neg htab,
      if_neg hcontrol]
    exact string_plain hquote hslash (by omega) text

/-- Behind a short escape the next character is taken for its last digit. -/
theorem string_short_escape {c : Char} (h : shortControl c = true) (d : Char) (text : Text) :
    string (escapeJsonChar c ++ d :: text) =
      (hexDigit d).bind fun n => (string text).map (unit (c.toNat * 16 + n)) := by
  have hfirst := hexDigit_digitChar (shortControl_lt h)
  have hzero : hexDigit '0' = some 0 := by decide
  rw [escapeJsonChar_short h]
  simp only [List.cons_append, List.nil_append, string_unicode]
  rw [hexFour, hfirst, hzero]
  cases hexDigit d with
  | none => rfl
  | some n => simp

/-- A hexadecimal digit is written as it is, and no other escape begins with one. -/
theorem escapeJsonChar_head (d : Char) :
    (∃ n, hexDigit d = some n ∧ escapeJsonChar d = [d]) ∨
      hexDigit d = none ∧ ∃ e rest, escapeJsonChar d = e :: rest ∧ hexDigit e = none := by
  cases hd : hexDigit d with
  | some n =>
    have hne : ∀ c : Char, hexDigit c = none → d ≠ c := by
      rintro c hc rfl
      rw [hc] at hd
      cases hd
    have hcontrol : ¬ d.toNat < 0x20 := by
      intro hlt
      rw [hexDigit, if_neg (by omega), if_neg (by omega), if_neg (by omega)] at hd
      cases hd
    refine Or.inl ⟨n, rfl, ?_⟩
    rw [escapeJsonChar, if_neg (hne _ (by decide)), if_neg (hne _ (by decide)),
      if_neg (hne _ (by decide)), if_neg (hne _ (by decide)), if_neg (hne _ (by decide)),
      if_neg hcontrol]
  | none =>
    refine Or.inr ⟨rfl, ?_⟩
    have hslash : hexDigit '\\' = none := by decide
    rw [escapeJsonChar]
    split_ifs
    · exact ⟨_, _, rfl, hslash⟩
    · exact ⟨_, _, rfl, hslash⟩
    · exact ⟨_, _, rfl, hslash⟩
    · exact ⟨_, _, rfl, hslash⟩
    · exact ⟨_, _, rfl, hslash⟩
    · exact ⟨_, _, rfl, hslash⟩
    · exact ⟨d, [], rfl, hd⟩

/-! ## A literal -/

/-- What is written up to the closing quote is read back as `readBack` says. -/
theorem string_escaped (value rest : Text) :
    string (value.flatMap escapeJsonChar ++ '"' :: rest) = (readBack value).map (·, rest) := by
  induction value using readBack.induct with
  | case1 => exact string_quote rest
  | case2 c hshort =>
    have hquote : hexDigit '"' = none := by decide
    rw [List.flatMap_singleton, string_short_escape hshort, hquote, readBack, if_pos hshort]
    rfl
  | case3 c hshort d text ih =>
    rw [List.flatMap_cons, List.flatMap_cons, List.append_assoc, List.append_assoc,
      readBack_short hshort]
    rcases escapeJsonChar_head d with ⟨n, hn, hd⟩ | ⟨hnone, e, more, he, hdigit⟩
    · rw [hd, List.singleton_append, string_short_escape hshort, ih, hn]
      cases readBack text <;> rfl
    · rw [he, List.cons_append, string_short_escape hshort, hdigit, hnone]
      rfl
  | case4 c text hlong ih =>
    have hplain : shortControl c = false := by simpa using hlong
    rw [List.flatMap_cons, List.append_assoc, string_escapeJsonChar hplain, ih,
      readBack_long hplain]
    cases readBack text <;> rfl

theorem piece_writeJsonString (value : Text) :
    Piece (writeJsonString value) ((readBack value).map .string) :=
  piece_string (string_escaped value)

theorem readBack_length {value : Text} {us : List Nat} (h : readBack value = some us) :
    us.length ≤ value.length ∧ ((∃ c ∈ value, shortControl c = true) → us.length < value.length) := by
  induction value using readBack.induct generalizing us with
  | case1 =>
    cases h
    simp
  | case2 c hshort =>
    rw [readBack, if_pos hshort] at h
    cases h
  | case3 c hshort d text ih =>
    rw [readBack_short hshort] at h
    obtain ⟨n, _, hmap⟩ := Option.bind_eq_some_iff.mp h
    obtain ⟨us, hus, rfl⟩ := Option.map_eq_some_iff.mp hmap
    have hle := (ih hus).1
    simp only [List.length_cons]
    exact ⟨by omega, fun _ => by omega⟩
  | case4 c text hlong ih =>
    rw [readBack_long (by simpa using hlong)] at h
    obtain ⟨us, hus, rfl⟩ := Option.map_eq_some_iff.mp h
    obtain ⟨hle, hlt⟩ := ih hus
    simp only [List.length_cons]
    refine ⟨by omega, ?_⟩
    rintro ⟨b, hmem, hb⟩
    rcases List.mem_cons.mp hmem with rfl | hmem
    · exact absurd hb hlong
    · have hshorter := hlt ⟨b, hmem, hb⟩
      omega

/-- Every short byte is directly followed by a hexadecimal digit. -/
def Readable (value : Text) : Prop :=
  ∀ before c after, value = before ++ c :: after → shortControl c = true →
    ∃ d ∈ after.head?, (hexDigit d).isSome

theorem readable_cons {c : Char} {value : Text} :
    Readable (c :: value) ↔
      (shortControl c = true → ∃ d ∈ value.head?, (hexDigit d).isSome) ∧ Readable value := by
  constructor
  · intro h
    refine ⟨h [] c value rfl, ?_⟩
    intro before d after hvalue hshort
    exact h (c :: before) d after (by rw [hvalue, List.cons_append]) hshort
  · rintro ⟨hfirst, hrest⟩ before d after hvalue hshort
    cases before with
    | nil =>
      cases hvalue
      exact hfirst hshort
    | cons b before => exact hrest before d after (List.cons.inj hvalue).2 hshort

/-- A hexadecimal digit is not itself a control byte. -/
theorem shortControl_of_hexDigit {d : Char} (h : (hexDigit d).isSome) : shortControl d = false := by
  by_contra hshort
  have hlt := shortControl_lt (by simpa using hshort)
  rw [hexDigit, if_neg (by omega), if_neg (by omega), if_neg (by omega)] at h
  cases h

theorem readBack_isSome_iff (value : Text) : (readBack value).isSome ↔ Readable value := by
  induction value using readBack.induct with
  | case1 => exact iff_of_true rfl fun before _ _ h => absurd h (by simp)
  | case2 c hshort =>
    rw [readable_cons, readBack, if_pos hshort]
    refine iff_of_false (by simp) ?_
    rintro ⟨hfirst, _⟩
    obtain ⟨d, hd, _⟩ := hfirst hshort
    cases hd
  | case3 c hshort d text ih =>
    rw [readBack_short hshort, readable_cons, readable_cons, ← ih]
    cases hd : hexDigit d with
    | none => simp [hshort, hd]
    | some n =>
      have hplain : shortControl d = false := shortControl_of_hexDigit (by simp [hd])
      simp [hshort, hd, hplain]
  | case4 c text hlong ih =>
    rw [readBack_long (by simpa using hlong), readable_cons, ← ih]
    simp [hlong]

/-- A text is read back as itself exactly when no byte of it is short. -/
theorem readBack_eq_units_iff (value : Text) :
    readBack value = some (units value) ↔ ∀ c ∈ value, shortControl c = false := by
  constructor
  · intro h c hmem
    by_contra hshort
    have hlt := (readBack_length h).2 ⟨c, hmem, by simpa using hshort⟩
    rw [units, List.length_map] at hlt
    omega
  · intro h
    induction value with
    | nil => rfl
    | cons c value ih =>
      obtain ⟨hc, hvalue⟩ := List.forall_mem_cons.mp h
      rw [readBack_long hc, ih hvalue]
      rfl

/-- The literal reads as the text that was written, whatever comes behind it, exactly when
no byte of the text is short. -/
theorem writeJsonString_iff (value : Text) :
    (∀ rest v r, Reads (writeJsonString value ++ rest) v r ↔
        v = .string (units value) ∧ r = rest) ↔
      ∀ c ∈ value, shortControl c = false := by
  rw [← readBack_eq_units_iff]
  have hreads : ∀ rest v r, Reads (writeJsonString value ++ rest) v r ↔
      ∃ us, (readBack value).map (·, rest) = some (us, r) ∧ v = .string us := by
    intro rest v r
    have htext : writeJsonString value ++ rest =
        '"' :: (value.flatMap escapeJsonChar ++ '"' :: rest) := by simp [writeJsonString]
    rw [htext, reads_string, string_escaped]
  simp only [hreads]
  constructor
  · intro h
    obtain ⟨us, hus, heq⟩ := (h [] (.string (units value)) []).mpr ⟨rfl, rfl⟩
    obtain ⟨us', hback, hpair⟩ := Option.map_eq_some_iff.mp hus
    cases hpair
    cases heq
    exact hback
  · intro h rest v r
    rw [h, Option.map_some]
    constructor
    · rintro ⟨us, heq, rfl⟩
      cases heq
      exact ⟨rfl, rfl⟩
    · rintro ⟨rfl, rfl⟩
      exact ⟨_, rfl, rfl⟩

/-- The byte `0x01` before the end of the literal is written as no JSON at all, and before
a zero as the byte `0x10`. -/
theorem writeJsonString_short :
    writeJsonString ['\x01'] = "\"\\u001\"".toList ∧
      ¬ Reads (writeJsonString ['\x01']) (.string [1]) [] ∧
      writeJsonString ['\x01', '0'] = writeJsonString ['\x10'] := by
  refine ⟨by decide, ?_, by decide⟩
  intro h
  obtain ⟨us, hus, _⟩ := reads_string.mp h
  have hnone : string ("\\u001\"".toList) = none := by decide
  exact absurd (hnone.symm.trans hus) (by simp)

end ExeCell.Report
