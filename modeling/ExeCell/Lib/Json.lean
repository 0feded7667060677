import Mathlib.Data.List.Basic
import Mathlib.Data.List.TakeDrop
import Mathlib.Data.Option.Basic
import Mathlib.Tactic.IntervalCases

/-!
# JSON

The grammar of JSON over a list of characters, as a relation between a text, the value it
begins with, and what is behind the value. A string is the sequence of its code units; a
character of the text that is not escaped is one unit.

The lemmas `reads_string`, `reads_array`, `reads_object`, `reads_number` and `reads_bool`
say what a text reads as by its first character.
-/

namespace Json

inductive Value where
  | null
  | bool (value : Bool)
  | number (literal : List Char)
  | string (units : List Nat)
  | array (items : List Value)
  | object (members : List (List Nat × Value))

/-! ## Tokens -/

def isSpace (c : Char) : Bool := c = ' ' || c = '\t' || c = '\n' || c = '\r'

/-- The text without the space it begins with. -/
def skip (text : List Char) : List Char := text.dropWhile isSpace

def hexDigit (c : Char) : Option Nat :=
  if 48 ≤ c.toNat ∧ c.toNat ≤ 57 then some (c.toNat - 48)
  else if 97 ≤ c.toNat ∧ c.toNat ≤ 102 then some (c.toNat - 87)
  else if 65 ≤ c.toNat ∧ c.toNat ≤ 70 then some (c.toNat - 55)
  else none

/-- The number of four hexadecimal digits. -/
def hexFour (a b c d : Char) : Option Nat :=
  match hexDigit a, hexDigit b, hexDigit c, hexDigit d with
  | some a, some b, some c, some d => some (((a * 16 + b) * 16 + c) * 16 + d)
  | _, _, _, _ => none

/-- The unit that a character stands for behind a backslash. -/
def shortEscape (c : Char) : Option Nat :=
  if c = '"' then some 0x22
  else if c = '\\' then some 0x5C
  else if c = '/' then some 0x2F
  else if c = 'b' then some 0x08
  else if c = 'f' then some 0x0C
  else if c = 'n' then some 0x0A
  else if c = 'r' then some 0x0D
  else if c = 't' then some 0x09
  else none

/-- One more unit in front of a string. -/
def unit (u : Nat) (parts : List Nat × List Char) : List Nat × List Char :=
  (u :: parts.1, parts.2)

/-- The units up to the closing quote, and the text behind it. -/
def string : List Char → Option (List Nat × List Char)
  | [] => none
  | c :: text =>
    if c = '"' then some ([], text)
    else if c = '\\' then
      match text with
      | [] => none
      | e :: text =>
        if e = 'u' then
          match text with
          | h₁ :: h₂ :: h₃ :: h₄ :: text =>
            (hexFour h₁ h₂ h₃ h₄).bind fun u => (string text).map (unit u)
          | _ => none
        else (shortEscape e).bind fun u => (string text).map (unit u)
    else if c.toNat < 0x20 then none
    else (string text).map (unit c.toNat)

/-- The integer part of a number, and the text behind it. -/
def integer : List Char → Option (List Char × List Char)
  | [] => none
  | c :: text =>
    if c = '0' then some ([c], text)
    else if c.isDigit then
      some (c :: text.takeWhile Char.isDigit, text.dropWhile Char.isDigit)
    else none

/-- At least one digit, behind `lead`. -/
def digits (lead text : List Char) : Option (List Char × List Char) :=
  if text.takeWhile Char.isDigit = [] then none
  else some (lead ++ text.takeWhile Char.isDigit, text.dropWhile Char.isDigit)

def fraction : List Char → Option (List Char × List Char)
  | [] => some ([], [])
  | c :: text => if c = '.' then digits [c] text else some ([], c :: text)

def exponent : List Char → Option (List Char × List Char)
  | [] => some ([], [])
  | e :: text =>
    if e = 'e' ∨ e = 'E' then
      match text with
      | [] => none
      | sign :: text =>
        if sign = '+' ∨ sign = '-' then digits [e, sign] text else digits [e] (sign :: text)
    else some ([], e :: text)

def unsigned (text : List Char) : Option (List Char × List Char) :=
  (integer text).bind fun whole =>
    (fraction whole.2).bind fun part =>
      (exponent part.2).map fun power => (whole.1 ++ part.1 ++ power.1, power.2)

/-- The number that the text begins with, and the text behind it. -/
def number : List Char → Option (List Char × List Char)
  | [] => none
  | c :: text =>
    if c = '-' then (unsigned text).map fun parts => (c :: parts.1, parts.2)
    else unsigned (c :: text)

/-! ## Values -/

mutual

/-- The text begins with the value, and the rest is behind it. -/
inductive Reads : List Char → Value → List Char → Prop
  | null {text rest : List Char} : skip text = "null".toList ++ rest → Reads text .null rest
  | false {text rest : List Char} :
    skip text = "false".toList ++ rest → Reads text (.bool false) rest
  | true {text rest : List Char} :
    skip text = "true".toList ++ rest → Reads text (.bool true) rest
  | number {text literal rest : List Char} :
    number (skip text) = some (literal, rest) → Reads text (.number literal) rest
  | string {text body rest : List Char} {units : List Nat} :
    skip text = '"' :: body → string body = some (units, rest) → Reads text (.string units) rest
  | emptyArray {text body rest : List Char} :
    skip text = '[' :: body → skip body = ']' :: rest → Reads text (.array []) rest
  | array {text body rest : List Char} {items : List Value} :
    skip text = '[' :: body → Elements body items rest → Reads text (.array items) rest
  | emptyObject {text body rest : List Char} :
    skip text = '\x7b' :: body → skip body = '\x7d' :: rest → Reads text (.object []) rest
  | object {text body rest : List Char} {members : List (List Nat × Value)} :
    skip text = '\x7b' :: body → Members body members rest → Reads text (.object members) rest

/-- The elements of an array, up to its bracket. -/
inductive Elements : List Char → List Value → List Char → Prop
  | last {text behind rest : List Char} {value : Value} :
    Reads text value behind → skip behind = ']' :: rest → Elements text [value] rest
  | more {text behind next rest : List Char} {value : Value} {items : List Value} :
    Reads text value behind → skip behind = ',' :: next → Elements next items rest →
      Elements text (value :: items) rest

/-- The members of an object, up to its brace. -/
inductive Members : List Char → List (List Nat × Value) → List Char → Prop
  | last {text body colon inner behind rest : List Char} {key : List Nat} {value : Value} :
    skip text = '"' :: body → string body = some (key, colon) → skip colon = ':' :: inner →
      Reads inner value behind → skip behind = '\x7d' :: rest → Members text [(key, value)] rest
  | more {text body colon inner behind next rest : List Char} {key : List Nat} {value : Value}
      {members : List (List Nat × Value)} :
    skip text = '"' :: body → string body = some (key, colon) → skip colon = ':' :: inner →
      Reads inner value behind → skip behind = ',' :: next → Members next members rest →
      Members text ((key, value) :: members) rest

end

/-- The text is the value, with nothing but space around it. -/
def Document (text : List Char) (value : Value) : Prop :=
  ∃ rest, Reads text value rest ∧ skip rest = []

def WellFormed (text : List Char) : Prop := ∃ value, Document text value

/-! ## Reading a token -/

theorem skip_cons {c : Char} (h : isSpace c = false) (text : List Char) :
    skip (c :: text) = c :: text := by
  rw [skip, List.dropWhile_cons, if_neg (by simp [h])]

theorem string_quote (text : List Char) : string ('"' :: text) = some ([], text) := by
  rw [string.eq_def]
  exact if_pos rfl

theorem string_plain {c : Char} (hquote : c ≠ '"') (hslash : c ≠ '\\') (hcontrol : 0x20 ≤ c.toNat)
    (text : List Char) : string (c :: text) = (string text).map (unit c.toNat) := by
  rw [string.eq_def]
  simp only [if_neg hquote, if_neg hslash, if_neg (Nat.not_lt.mpr hcontrol)]

theorem string_control {c : Char} (h : c.toNat < 0x20) (text : List Char) :
    string (c :: text) = none := by
  have hquote : c ≠ '"' := by
    rintro rfl
    exact absurd h (by decide)
  have hslash : c ≠ '\\' := by
    rintro rfl
    exact absurd h (by decide)
  rw [string.eq_def]
  simp only [if_neg hquote, if_neg hslash, if_pos h]

theorem string_short {e : Char} {u : Nat} (h : shortEscape e = some u) (text : List Char) :
    string ('\\' :: e :: text) = (string text).map (unit u) := by
  have hletter : e ≠ 'u' := by
    rintro rfl
    cases h
  rw [string.eq_def]
  simp only [if_neg (by decide : ¬ '\\' = '"'), if_pos, if_neg hletter, h, Option.bind_some]

theorem string_unicode (h₁ h₂ h₃ h₄ : Char) (text : List Char) :
    string ('\\' :: 'u' :: h₁ :: h₂ :: h₃ :: h₄ :: text) =
      (hexFour h₁ h₂ h₃ h₄).bind fun u => (string text).map (unit u) := by
  rw [string.eq_def]
  simp only [if_neg (by decide : ¬ '\\' = '"'), if_pos]

/-- A text that needs no escape. -/
def Plain (text : List Char) : Prop := ∀ c ∈ text, c ≠ '"' ∧ c ≠ '\\' ∧ 0x20 ≤ c.toNat

instance (text : List Char) : Decidable (Plain text) :=
  inferInstanceAs (Decidable (∀ c ∈ text, c ≠ '"' ∧ c ≠ '\\' ∧ 0x20 ≤ c.toNat))

/-- The units of a text that needs no escape. -/
def units (text : List Char) : List Nat := text.map Char.toNat

theorem string_of_plain {text : List Char} (h : Plain text) (rest : List Char) :
    string (text ++ '"' :: rest) = some (units text, rest) := by
  induction text with
  | nil => exact string_quote rest
  | cons c text ih =>
    obtain ⟨⟨hquote, hslash, hcontrol⟩, hrest⟩ := List.forall_mem_cons.mp h
    rw [List.cons_append, string_plain hquote hslash hcontrol, ih hrest]
    rfl

/-! ## Numbers -/

/-- What may stand behind a value. -/
def isDelimiter (c : Char) : Bool := c = ',' || c = ']' || c = '\x7d' || isSpace c

/-- The text is at its end or goes on with a delimiter. -/
def Delimited (text : List Char) : Prop := ∀ c ∈ text.head?, isDelimiter c = true

theorem delimited_nil : Delimited [] := fun _ h => nomatch h

theorem delimited_cons {c : Char} (h : isDelimiter c = true) (text : List Char) :
    Delimited (c :: text) := by
  intro d hd
  cases hd
  exact h

theorem Delimited.of_digit {text : List Char} (h : Delimited text) :
    ∀ c ∈ text.head?, c.isDigit = false := by
  intro c hc
  have hdelimiter := h c hc
  simp only [isDelimiter, isSpace, Bool.or_eq_true, decide_eq_true_eq] at hdelimiter
  rcases hdelimiter with ((rfl | rfl) | rfl) | ((rfl | rfl) | rfl) | rfl <;> decide

theorem fraction_delimited {text : List Char} (h : Delimited text) :
    fraction text = some ([], text) := by
  cases text with
  | nil => rfl
  | cons c text =>
    have hpoint : c ≠ '.' := by
      rintro rfl
      exact absurd (h '.' rfl) (by decide)
    rw [fraction, if_neg hpoint]

theorem exponent_delimited {text : List Char} (h : Delimited text) :
    exponent text = some ([], text) := by
  cases text with
  | nil => rfl
  | cons c text =>
    have hletter : ¬ (c = 'e' ∨ c = 'E') := by
      rintro (rfl | rfl)
      · exact absurd (h 'e' rfl) (by decide)
      · exact absurd (h 'E' rfl) (by decide)
    rw [exponent.eq_def]
    exact if_neg hletter

theorem takeWhile_digits {ds text : List Char} (hds : ∀ c ∈ ds, c.isDigit = true)
    (h : ∀ c ∈ text.head?, c.isDigit = false) :
    (ds ++ text).takeWhile Char.isDigit = ds ∧ (ds ++ text).dropWhile Char.isDigit = text := by
  induction ds with
  | nil =>
    cases text with
    | nil => exact ⟨rfl, rfl⟩
    | cons c text => simp [h c rfl]
  | cons d ds ih =>
    obtain ⟨hd, hrest⟩ := List.forall_mem_cons.mp hds
    simpa [hd] using ih hrest

/-- Decimal digits without a leading zero. -/
theorem unsigned_digits {ds text : List Char} (hds : ∀ c ∈ ds, c.isDigit = true)
    (hlead : ds = ['0'] ∨ ∃ d rest, ds = d :: rest ∧ d ≠ '0') (h : Delimited text) :
    unsigned (ds ++ text) = some (ds, text) := by
  have hinteger : integer (ds ++ text) = some (ds, text) := by
    rcases hlead with rfl | ⟨d, rest, rfl, hd⟩
    · rfl
    · obtain ⟨hdigit, hrest⟩ := List.forall_mem_cons.mp hds
      obtain ⟨htake, hdrop⟩ := takeWhile_digits hrest h.of_digit
      rw [List.cons_append, integer, if_neg hd, if_pos hdigit, htake, hdrop]
  rw [unsigned, hinteger, Option.bind_some, fraction_delimited h, Option.bind_some,
    exponent_delimited h, Option.map_some, List.append_nil, List.append_nil]

theorem toDigits_lead (n : Nat) :
    Nat.toDigits 10 n = ['0'] ∨ ∃ d rest, Nat.toDigits 10 n = d :: rest ∧ d ≠ '0' := by
  induction n using Nat.strongRecOn with
  | ind n ih =>
    rcases Nat.lt_or_ge n 10 with hlt | hge
    · rw [Nat.toDigits_of_lt_base hlt]
      interval_cases n
      · exact Or.inl rfl
      all_goals exact Or.inr ⟨_, _, rfl, by decide⟩
    · rw [Nat.toDigits_of_base_le (by decide) hge]
      rcases ih (n / 10) (by omega) with hzero | ⟨d, rest, heq, hd⟩
      · -- a quotient that is printed as zero is zero
        have hvalue : n / 10 = 0 := by
          rw [← @Nat.ofDigitChars_ten_toDigits (n / 10), hzero]
          rfl
        omega
      · exact Or.inr ⟨d, rest ++ [_], by rw [heq, List.cons_append], hd⟩

theorem isDigit_toDigits (n : Nat) : ∀ c ∈ Nat.toDigits 10 n, c.isDigit = true :=
  fun _ h => Nat.isDigit_of_mem_toDigits (by decide) (by decide) h

theorem toList_toString (n : Nat) : (toString n).toList = Nat.toDigits 10 n := Nat.toList_repr

theorem number_nat (n : Nat) {rest : List Char} (h : Delimited rest) :
    number ((toString n).toList ++ rest) = some ((toString n).toList, rest) := by
  have hunsigned := unsigned_digits (isDigit_toDigits n) (toDigits_lead n) h
  rw [toList_toString]
  cases hds : Nat.toDigits 10 n with
  | nil => exact absurd hds Nat.toDigits_ne_nil
  | cons d ds =>
    have hd : d ≠ '-' := by
      rintro rfl
      exact absurd (isDigit_toDigits n '-' (hds ▸ List.mem_cons_self)) (by decide)
    rw [hds] at hunsigned
    rw [List.cons_append, number, if_neg hd]
    exact hunsigned

theorem number_int (z : Int) {rest : List Char} (h : Delimited rest) :
    number ((toString z).toList ++ rest) = some ((toString z).toList, rest) := by
  rw [Int.toString_eq_repr, Int.repr_eq_if]
  split
  · exact number_nat _ h
  · rw [String.toList_append, Nat.toList_repr, List.append_assoc]
    have hunsigned := unsigned_digits (isDigit_toDigits (-z).toNat) (toDigits_lead _) h
    exact (congrArg (Option.map _) hunsigned)

/-! ## Reading a value -/

theorem number_none {c : Char} (hsign : c ≠ '-') (hdigit : c.isDigit = false) (text : List Char) :
    number (c :: text) = none := by
  have hzero : c ≠ '0' := by
    rintro rfl
    exact absurd hdigit (by decide)
  have hinteger : integer (c :: text) = none := by
    rw [integer, if_neg hzero, if_neg (by simp [hdigit])]
  rw [number, if_neg hsign, unsigned, hinteger]
  rfl

/-- The characters that a value of this kind can begin with. -/
def Value.begins : Value → Char → Bool
  | .null, c => c = 'n'
  | .bool _, c => c = 't' || c = 'f'
  | .number _, c => c = '-' || c.isDigit
  | .string _, c => c = '"'
  | .array _, c => c = '['
  | .object _, c => c = '\x7b'

section Reads

variable {value : Value} {body text rest : List Char} {c : Char}

theorem number_begins {literal : List Char} (h : number text = some (literal, rest)) :
    ∃ c tail, text = c :: tail ∧ (Value.number literal).begins c = true := by
  cases text with
  | nil => cases h
  | cons c tail =>
    refine ⟨c, tail, rfl, ?_⟩
    by_contra hnot
    simp only [Value.begins, Bool.or_eq_true, decide_eq_true_eq, not_or, Bool.not_eq_true] at hnot
    rw [number_none hnot.1 hnot.2] at h
    cases h

theorem reads_begins (h : Reads text value rest) :
    ∃ c tail, skip text = c :: tail ∧ value.begins c = true := by
  cases h with
  | null hskip => exact ⟨_, _, hskip, rfl⟩
  | false hskip => exact ⟨_, _, hskip, rfl⟩
  | true hskip => exact ⟨_, _, hskip, rfl⟩
  | number hnumber => exact number_begins hnumber
  | string hskip _ => exact ⟨_, _, hskip, rfl⟩
  | emptyArray hskip _ => exact ⟨_, _, hskip, rfl⟩
  | array hskip _ => exact ⟨_, _, hskip, rfl⟩
  | emptyObject hskip _ => exact ⟨_, _, hskip, rfl⟩
  | object hskip _ => exact ⟨_, _, hskip, rfl⟩

theorem begins_of_reads (hc : isSpace c = false) (h : Reads (c :: text) value rest) :
    value.begins c = true := by
  obtain ⟨d, tail, hskip, hd⟩ := reads_begins h
  rw [skip_cons hc] at hskip
  cases hskip
  exact hd

theorem not_reads_bracket : ¬ Reads (']' :: text) value rest := by
  intro h
  have hbegins := begins_of_reads (by decide) h
  cases value <;> cases hbegins

theorem reads_string :
    Reads ('"' :: body) value rest ↔
      ∃ units, string body = some (units, rest) ∧ value = .string units := by
  have hskip : skip ('"' :: body) = '"' :: body := skip_cons (by decide) body
  constructor
  · intro h
    have hbegins := begins_of_reads (by decide) h
    cases value <;> simp only [Value.begins] at hbegins <;> try exact absurd hbegins (by decide)
    cases h with
    | string hbody hunits =>
      rw [hskip] at hbody
      cases hbody
      exact ⟨_, hunits, rfl⟩
  · rintro ⟨units, hunits, rfl⟩
    exact .string hskip hunits

theorem reads_array :
    Reads ('[' :: body) value rest ↔
      (skip body = ']' :: rest ∧ value = .array []) ∨
        ∃ items, Elements body items rest ∧ value = .array items := by
  have hskip : skip ('[' :: body) = '[' :: body := skip_cons (by decide) body
  constructor
  · intro h
    have hbegins := begins_of_reads (by decide) h
    cases value <;> simp only [Value.begins] at hbegins <;> try exact absurd hbegins (by decide)
    cases h with
    | emptyArray hbody hclose =>
      rw [hskip] at hbody
      cases hbody
      exact Or.inl ⟨hclose, rfl⟩
    | array hbody hitems =>
      rw [hskip] at hbody
      cases hbody
      exact Or.inr ⟨_, hitems, rfl⟩
  · rintro (⟨hclose, rfl⟩ | ⟨items, hitems, rfl⟩)
    · exact .emptyArray hskip hclose
    · exact .array hskip hitems

theorem reads_object :
    Reads ('\x7b' :: body) value rest ↔
      (skip body = '\x7d' :: rest ∧ value = .object []) ∨
        ∃ members, Members body members rest ∧ value = .object members := by
  have hskip : skip ('\x7b' :: body) = '\x7b' :: body := skip_cons (by decide) body
  constructor
  · intro h
    have hbegins := begins_of_reads (by decide) h
    cases value <;> simp only [Value.begins] at hbegins <;> try exact absurd hbegins (by decide)
    cases h with
    | emptyObject hbody hclose =>
      rw [hskip] at hbody
      cases hbody
      exact Or.inl ⟨hclose, rfl⟩
    | object hbody hmembers =>
      rw [hskip] at hbody
      cases hbody
      exact Or.inr ⟨_, hmembers, rfl⟩
  · rintro (⟨hclose, rfl⟩ | ⟨members, hmembers, rfl⟩)
    · exact .emptyObject hskip hclose
    · exact .object hskip hmembers

/-- What begins a number begins nothing else. -/
theorem number_class (hc : c = '-' ∨ c.isDigit = true) :
    isSpace c = false ∧ c ≠ ']' ∧ c ≠ 'n' ∧ c ≠ 't' ∧ c ≠ 'f' ∧ c ≠ '"' ∧ c ≠ '[' ∧ c ≠ '\x7b' := by
  have hne : ∀ d : Char, d ≠ '-' → d.isDigit = false → c ≠ d := by
    rintro d hsign hdigit rfl
    rcases hc with hc | hc
    · exact hsign hc
    · rw [hdigit] at hc
      cases hc
  refine ⟨?_, hne _ (by decide) (by decide), hne _ (by decide) (by decide),
    hne _ (by decide) (by decide), hne _ (by decide) (by decide), hne _ (by decide) (by decide),
    hne _ (by decide) (by decide), hne _ (by decide) (by decide)⟩
  simp only [isSpace, Bool.or_eq_false_iff, decide_eq_false_iff_not]
  exact ⟨⟨⟨hne _ (by decide) (by decide), hne _ (by decide) (by decide)⟩,
    hne _ (by decide) (by decide)⟩, hne _ (by decide) (by decide)⟩

theorem reads_number (hc : c = '-' ∨ c.isDigit = true) :
    Reads (c :: text) value rest ↔
      ∃ literal, number (c :: text) = some (literal, rest) ∧ value = .number literal := by
  obtain ⟨hspace, _, hnull, htrue, hfalse, hstring, harray, hobject⟩ := number_class hc
  have hskip := skip_cons hspace text
  constructor
  · intro h
    have hbegins := begins_of_reads hspace h
    cases value <;> simp only [Value.begins, hnull, htrue, hfalse, hstring, harray, hobject,
      decide_false, Bool.or_false, Bool.false_eq_true] at hbegins
    cases h with
    | number hnumber =>
      rw [hskip] at hnumber
      exact ⟨_, hnumber, rfl⟩
  · rintro ⟨literal, hnumber, rfl⟩
    rw [← hskip] at hnumber
    exact .number hnumber

theorem reads_bool (b : Bool) :
    Reads ((if b then "true".toList else "false".toList) ++ text) value rest ↔
      value = .bool b ∧ rest = text := by
  cases b with
  | true =>
    have hskip : skip ("true".toList ++ text) = "true".toList ++ text := skip_cons (by decide) _
    constructor
    · intro h
      have hbegins := begins_of_reads (by decide) h
      cases value <;> simp only [Value.begins] at hbegins <;> try exact absurd hbegins (by decide)
      cases h with
      | false hother => exact absurd (hskip.symm.trans hother) (by simp)
      | true hsame => exact ⟨rfl, (List.append_cancel_left (hskip.symm.trans hsame)).symm⟩
    · rintro ⟨rfl, rfl⟩
      exact .true hskip
  | false =>
    have hskip : skip ("false".toList ++ text) = "false".toList ++ text := skip_cons (by decide) _
    constructor
    · intro h
      have hbegins := begins_of_reads (by decide) h
      cases value <;> simp only [Value.begins] at hbegins <;> try exact absurd hbegins (by decide)
      cases h with
      | false hsame => exact ⟨rfl, (List.append_cancel_left (hskip.symm.trans hsame)).symm⟩
      | true hother => exact absurd (hskip.symm.trans hother) (by simp)
    · rintro ⟨rfl, rfl⟩
      exact .false hskip

end Reads

end Json
