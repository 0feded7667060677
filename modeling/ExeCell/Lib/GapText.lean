import Mathlib.Data.List.Basic
import Mathlib.Data.List.TakeWhile

/-!
# Numbers in fields

A text of fields with a separator between them, each the digits of a number. An empty field
is a gap: it stands for as many zeros as are missing up to a known count (`expand_gap`).
Digits are read back in every base up to 16 (`ofDigits_toDigits`).
-/

namespace GapText

/-! ## Digits -/

/-- The value of a digit, with small letters from ten on. -/
def digitValue (c : Char) : Nat := if c.toNat < 58 then c.toNat - 48 else c.toNat - 87

/-- The number of the digits. -/
def ofDigits (base : Nat) (digits : List Char) : Nat :=
  digits.foldl (fun value c => base * value + digitValue c) 0

section Digits

variable {base number : Nat} {c : Char}

theorem digitValue_digitChar : ∀ digit < 16, digitValue digit.digitChar = digit := by
  decide

theorem ofDigits_append_singleton (digits : List Char) :
    ofDigits base (digits ++ [c]) = base * ofDigits base digits + digitValue c := by
  rw [ofDigits, List.foldl_append, List.foldl_cons, List.foldl_nil, ← ofDigits]

theorem ofDigits_toDigits (hbase : 1 < base) (hsize : base ≤ 16) :
    ofDigits base (Nat.toDigits base number) = number := by
  induction number using Nat.strongRecOn with
  | ind number ih =>
    rw [Nat.toDigits_eq_if hbase]
    split
    · rename_i hlt
      rw [← List.nil_append [number.digitChar], ofDigits_append_singleton,
        digitValue_digitChar number (by omega)]
      exact Nat.zero_add number
    · have hdigit : number % base < base := Nat.mod_lt _ (by omega)
      rw [ofDigits_append_singleton, ih (number / base) (Nat.div_lt_self (by omega) hbase),
        digitValue_digitChar _ (by omega)]
      exact Nat.div_add_mod ..

theorem exists_of_mem_toDigits (hbase : 1 < base) (h : c ∈ Nat.toDigits base number) :
    ∃ digit < base, c = digit.digitChar := by
  induction number using Nat.strongRecOn with
  | ind number ih =>
    rw [Nat.toDigits_eq_if hbase] at h
    split at h
    · rename_i hlt
      exact ⟨number, hlt, List.mem_singleton.mp h⟩
    · rw [List.mem_append, List.mem_singleton] at h
      rcases h with h | rfl
      · exact ih (number / base) (Nat.div_lt_self (by omega) hbase) h
      · exact ⟨number % base, Nat.mod_lt _ (by omega), rfl⟩

end Digits

/-! ## Fields -/

/-- The fields with the separator before each of them. -/
def led (separator : Char) (fields : List (List Char)) : List Char :=
  fields.flatMap fun field => separator :: field

/-- The numbers of the fields. The first empty field begins what stands behind the gap. -/
def expand (read : List Char → List Nat) (count : Nat) (fields : List (List Char)) : List Nat :=
  let high := (fields.takeWhile fun field => !field.isEmpty).flatMap read
  let low := (fields.dropWhile fun field => !field.isEmpty).flatMap read
  high ++ List.replicate (count - high.length - low.length) 0 ++ low

section Fields

variable {separator : Char} {field : List Char} {fields front back : List (List Char)}
  {read : List Char → List Nat} {count : Nat}

theorem led_cons : led separator (field :: fields) = separator :: field ++ led separator fields :=
  rfl

theorem led_append : led separator (front ++ back) = led separator front ++ led separator back :=
  List.flatMap_append

theorem splitOn_led (hfield : separator ∉ field) (h : ∀ field ∈ fields, separator ∉ field) :
    (field ++ led separator fields).splitOn separator = field :: fields := by
  induction fields generalizing field with
  | nil =>
    rw [led, List.flatMap_nil, List.append_nil]
    exact List.splitOn_eq_singleton hfield
  | cons next fields ih =>
    rw [List.forall_mem_cons] at h
    rw [led_cons, List.cons_append, List.splitOn_append_cons_self_of_not_mem hfield,
      ih h.1 h.2]

theorem expand_full (h : ∀ field ∈ fields, field ≠ [])
    (hcount : (fields.flatMap read).length = count) :
    expand read count fields = fields.flatMap read := by
  have hall : ∀ field ∈ fields, (!field.isEmpty) = true := fun field hmem => by
    simpa using h field hmem
  rw [expand, List.takeWhile_eq_self_iff.mpr hall, List.dropWhile_eq_nil_iff.mpr hall,
    List.flatMap_nil, List.append_nil, hcount, Nat.sub_self]
  exact List.append_nil _

theorem expand_gap (h : ∀ field ∈ front, field ≠ []) (hread : read [] = []) :
    expand read count (front ++ [] :: back) =
      front.flatMap read ++
        List.replicate (count - (front.flatMap read).length - (back.flatMap read).length) 0 ++
        back.flatMap read := by
  have hall : ∀ field ∈ front, (!field.isEmpty) = true := fun field hmem => by
    simpa using h field hmem
  have hhigh : (front ++ [] :: back).takeWhile (fun field => !field.isEmpty) = front := by
    rw [List.takeWhile_append_of_pos hall, List.takeWhile_cons, if_neg (by decide),
      List.append_nil]
  have hlow : (front ++ [] :: back).dropWhile (fun field => !field.isEmpty) = [] :: back := by
    rw [List.dropWhile_append_of_pos hall, List.dropWhile_cons, if_neg (by decide)]
  rw [expand, hhigh, hlow, List.flatMap_cons, hread, List.nil_append]

end Fields

end GapText
