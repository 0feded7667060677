import Mathlib.Algebra.Order.Ring.Int
import Mathlib.Data.List.Infix

/-!
# Byte strings and fixed-width integers

The program handles text as `std::string`, a sequence of bytes. Here such a string is
a list of characters: the byte `b` is the character with code `b`, so that bytes from
`0x80` on are ordinary characters.
-/

namespace ExeCell

/-- The contents of a `std::string`. -/
abbrev Text := List Char

/-- A `pid_t`. -/
abbrev Pid := Int

/-- A value of `errno`. -/
abbrev Errno := Nat

def enoent : Errno := 2
def esrch : Errno := 3
def eintr : Errno := 4
def eagain : Errno := 11
def eacces : Errno := 13

/-- `static_cast<int>` of an integer of any width: the low 32 bits, read as signed. -/
def toInt32 (value : Int) : Int := Int.bmod value (2 ^ 32)

/-- `static_cast<unsigned>` of an integer of any width. -/
def toUInt32 (value : Int) : Nat := (value % 2 ^ 32).toNat

/-- `static_cast<long>` of an unsigned 64-bit value. -/
def toInt64 (value : Nat) : Int := Int.bmod value (2 ^ 64)

namespace Text

/-- What holds of every character of a text is decided on the text, and not on all
characters there are. -/
instance (priority := high) decidableForallMem (p : Char → Prop) [DecidablePred p]
    (text : Text) : Decidable (∀ c ∈ text, p c) :=
  List.decidableBAll p text

instance (priority := high) decidableForallMemOption (p : Char → Prop) [DecidablePred p]
    (first : Option Char) : Decidable (∀ c ∈ first, p c) :=
  Option.decidableForallMem first

/-- `std::to_string` of an unsigned value. -/
def ofNat (value : Nat) : Text := (toString value).toList

/-- `std::to_string` of a signed value. -/
def ofInt (value : Int) : Text := (toString value).toList

/-- The JSON spelling of a `bool`. -/
def ofBool (value : Bool) : Text := if value then "true".toList else "false".toList

theorem ofNat_eq_toDigits (value : Nat) : ofNat value = Nat.toDigits 10 value := Nat.toList_repr

theorem ofNat_ne_nil (value : Nat) : ofNat value ≠ [] := by
  rw [ofNat_eq_toDigits]
  exact Nat.toDigits_ne_nil

theorem isDigit_of_mem_ofNat {value : Nat} {c : Char} (h : c ∈ ofNat value) : c.isDigit = true := by
  rw [ofNat_eq_toDigits] at h
  exact Nat.isDigit_of_mem_toDigits (by decide) (by decide) h

theorem not_mem_ofNat {c : Char} (h : c.isDigit = false) (value : Nat) : c ∉ ofNat value :=
  fun hmem => absurd ((isDigit_of_mem_ofNat hmem).symm.trans h) (by decide)

theorem of_mem_ofInt {value : Int} {c : Char} (h : c ∈ ofInt value) :
    c.isDigit = true ∨ c = '-' := by
  rw [ofInt, Int.toString_eq_repr, Int.repr_eq_if] at h
  split at h
  · exact Or.inl (isDigit_of_mem_ofNat h)
  · rw [String.toList_append, List.mem_append] at h
    rcases h with h | h
    · exact Or.inr (List.mem_singleton.mp h)
    · exact Or.inl (isDigit_of_mem_ofNat h)

theorem ofNat_inj {value value' : Nat} : ofNat value = ofNat value' ↔ value = value' := by
  constructor
  · intro h
    rw [ofNat_eq_toDigits, ofNat_eq_toDigits] at h
    rw [← @Nat.ofDigitChars_ten_toDigits value, h, Nat.ofDigitChars_ten_toDigits]
  · rintro rfl
    rfl

theorem ofInt_inj {value value' : Int} : ofInt value = ofInt value' ↔ value = value' := by
  have hneg : ∀ n m : Nat, ofNat n ≠ ("-" ++ m.repr).toList := by
    intro n m h
    have hsign : '-' ∈ ofNat n := by
      rw [h, String.toList_append]
      exact List.mem_append_left _ (by decide)
    exact not_mem_ofNat (by decide) n hsign
  constructor
  · intro h
    rw [ofInt, ofInt, Int.toString_eq_repr, Int.toString_eq_repr, Int.repr_eq_if,
      Int.repr_eq_if] at h
    split at h
    · split at h
      · have hnat := ofNat_inj.mp h
        omega
      · exact absurd h (hneg _ _)
    · split at h
      · exact absurd h.symm (hneg _ _)
      · rw [String.toList_append, String.toList_append] at h
        have hnat := ofNat_inj.mp (List.append_cancel_left h)
        omega
  · rintro rfl
    rfl

theorem ofBool_inj {value value' : Bool} : ofBool value = ofBool value' ↔ value = value' := by
  cases value <;> cases value' <;> decide

end Text

end ExeCell
