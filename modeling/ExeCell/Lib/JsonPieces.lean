import Mathlib.Data.List.Forall2
import ExeCell.Lib.Json

/-!
# Putting JSON together

A writer puts its text together from parts: literals, numbers, and arrays and objects of
parts. `Piece text value` says all there is to say about a part: before a delimiter it
reads as the value and nothing else, and not at all when there is no value. `piece_array`
and `piece_object` are the rules for putting parts together.
-/

namespace Json

/-! ## Parts of a text -/

/-- The text begins with something that can begin a value. -/
def Solid (text : List Char) : Prop := ∃ c tail, text = c :: tail ∧ isSpace c = false ∧ c ≠ ']'

/-- Before a delimiter the text reads as the value and nothing else; without a value it
does not read. -/
structure Piece (text : List Char) (value : Option Value) : Prop where
  solid : Solid text
  reads : ∀ rest v r, Delimited rest → (Reads (text ++ rest) v r ↔ value = some v ∧ r = rest)

theorem Piece.document_iff {text : List Char} {value : Option Value} (h : Piece text value)
    {v : Value} : Document text v ↔ value = some v := by
  have hreads := h.reads [] v
  rw [List.append_nil] at hreads
  constructor
  · rintro ⟨rest, hrest, _⟩
    exact ((hreads rest delimited_nil).mp hrest).1
  · intro hvalue
    exact ⟨[], (hreads [] delimited_nil).mpr ⟨hvalue, rfl⟩, rfl⟩

/-- A line end behind the text changes nothing. -/
theorem Piece.document_line_iff {text : List Char} {value : Option Value} (h : Piece text value)
    {v : Value} : Document (text ++ ['\n']) v ↔ value = some v := by
  have hreads := h.reads ['\n'] v
  constructor
  · rintro ⟨rest, hrest, _⟩
    exact ((hreads rest (delimited_cons (by decide) [])).mp hrest).1
  · intro hvalue
    exact ⟨['\n'], (hreads ['\n'] (delimited_cons (by decide) [])).mpr ⟨hvalue, rfl⟩, by decide⟩

theorem Piece.wellFormed_iff {text : List Char} {value : Option Value} (h : Piece text value) :
    WellFormed text ↔ value.isSome := by
  rw [Option.isSome_iff_exists]
  exact exists_congr fun _ => h.document_iff

theorem piece_string {body : List Char} {outcome : Option (List Nat)}
    (h : ∀ rest, string (body ++ '"' :: rest) = outcome.map (·, rest)) :
    Piece ('"' :: body ++ ['"']) (outcome.map .string) := by
  refine ⟨⟨_, _, rfl, by decide, by decide⟩, ?_⟩
  intro rest v r _
  have htext : '"' :: body ++ ['"'] ++ rest = '"' :: (body ++ '"' :: rest) := by simp
  rw [htext, reads_string, h]
  cases outcome with
  | none => simp
  | some units =>
    simp only [Option.map_some, Option.some.injEq, Prod.mk.injEq]
    constructor
    · rintro ⟨units', ⟨rfl, rfl⟩, rfl⟩
      exact ⟨rfl, rfl⟩
    · rintro ⟨rfl, rfl⟩
      exact ⟨units, ⟨rfl, rfl⟩, rfl⟩

/-! ## Literals with short escapes -/

/-- Every character is written as a backslash with a letter, or as it is. -/
def Shortens (escape : Char → List Char) : Prop :=
  ∀ c, (∃ e, shortEscape e = some c.toNat ∧ escape c = ['\\', e]) ∨
    escape c = [c] ∧ c ≠ '"' ∧ c ≠ '\\'

/-- A control character that is written as it is. -/
def isRaw (escape : Char → List Char) (c : Char) : Bool := escape c = [c] && c.toNat < 0x20

theorem Shortens.string {escape : Char → List Char} (h : Shortens escape) (value rest : List Char) :
    Json.string (value.flatMap escape ++ '"' :: rest) =
      if value.any (isRaw escape) then none else some (units value, rest) := by
  induction value with
  | nil => exact string_quote rest
  | cons c value ih =>
    rw [List.flatMap_cons, List.append_assoc, List.any_cons]
    have hmap : ∀ u, (Json.string (value.flatMap escape ++ '"' :: rest)).map (unit u) =
        if value.any (isRaw escape) then none else some (u :: units value, rest) := by
      intro u
      rw [ih]
      split <;> rfl
    rcases h c with ⟨e, hshort, hescape⟩ | ⟨hescape, hquote, hslash⟩
    · have hraw : isRaw escape c = false := by
        rw [isRaw, hescape]
        simp
      rw [hraw, Bool.false_or, hescape]
      exact (string_short hshort _).trans (hmap c.toNat)
    · rw [hescape, List.singleton_append]
      rcases Nat.lt_or_ge c.toNat 0x20 with hcontrol | hprinted
      · have hraw : isRaw escape c = true := by
          rw [isRaw, hescape]
          simpa using hcontrol
        rw [string_control hcontrol, hraw]
        rfl
      · have hraw : isRaw escape c = false := by
          rw [isRaw, hescape]
          simpa using hprinted
        rw [string_plain hquote hslash hprinted, hraw, Bool.false_or]
        exact hmap c.toNat

/-- A literal with short escapes reads as the text that was written, or as nothing. -/
theorem piece_shortened {escape : Char → List Char} (h : Shortens escape) (value : List Char) :
    Piece ('"' :: value.flatMap escape ++ ['"'])
      (if value.any (isRaw escape) then none else some (.string (units value))) := by
  by_cases hraw : value.any (isRaw escape) = true
  · rw [if_pos hraw]
    exact @piece_string _ none fun rest => by rw [h.string, if_pos hraw]; rfl
  · rw [if_neg hraw]
    exact @piece_string _ (some (units value)) fun rest => by rw [h.string, if_neg hraw]; rfl

/-! ## Booleans and numbers -/

theorem piece_bool (b : Bool) :
    Piece (if b then "true".toList else "false".toList) (some (.bool b)) := by
  constructor
  · cases b with
    | true => exact ⟨_, _, rfl, by decide, by decide⟩
    | false => exact ⟨_, _, rfl, by decide, by decide⟩
  · intro rest v r _
    rw [reads_bool, Option.some.injEq, eq_comm]

theorem piece_number {literal : List Char} (hbegins : ∀ c ∈ literal.head?, c = '-' ∨ c.isDigit = true)
    (hnonempty : literal ≠ [])
    (h : ∀ rest, Delimited rest → number (literal ++ rest) = some (literal, rest)) :
    Piece literal (some (.number literal)) := by
  cases literal with
  | nil => exact absurd rfl hnonempty
  | cons c tail =>
    refine ⟨⟨c, tail, rfl, (number_class (hbegins c rfl)).1, (number_class (hbegins c rfl)).2.1⟩, ?_⟩
    intro rest v r hrest
    have hnumber := h rest hrest
    rw [List.cons_append] at hnumber ⊢
    rw [reads_number (hbegins c rfl), hnumber]
    constructor
    · rintro ⟨literal, heq, rfl⟩
      cases heq
      exact ⟨rfl, rfl⟩
    · rintro ⟨hv, rfl⟩
      cases hv
      exact ⟨_, rfl, rfl⟩

theorem piece_nat (n : Nat) : Piece (toString n).toList (some (.number (toString n).toList)) := by
  apply piece_number
  · intro c hc
    rw [toList_toString] at hc
    exact Or.inr (isDigit_toDigits n c (List.mem_of_mem_head? hc))
  · rw [toList_toString]
    exact Nat.toDigits_ne_nil
  · exact fun rest => number_nat n

theorem piece_int (z : Int) : Piece (toString z).toList (some (.number (toString z).toList)) := by
  apply piece_number
  · intro c hc
    rw [Int.toString_eq_repr, Int.repr_eq_if] at hc
    split at hc
    · rw [Nat.toList_repr] at hc
      exact Or.inr (isDigit_toDigits _ c (List.mem_of_mem_head? hc))
    · rw [String.toList_append] at hc
      cases hc
      exact Or.inl rfl
  · intro hnil
    rw [Int.toString_eq_repr, Int.repr_eq_if] at hnil
    split at hnil
    · rw [Nat.toList_repr] at hnil
      exact Nat.toDigits_ne_nil hnil
    · rw [String.toList_append] at hnil
      cases hnil
  · exact fun rest => number_int z

/-! ## Arrays and objects of parts -/

/-- All the values, if none is missing. -/
def all {α : Type} : List (Option α) → Option (List α)
  | [] => some []
  | value :: values => value.bind fun v => (all values).map (v :: ·)

theorem all_cons_eq_some {α : Type} {value : Option α} {values : List (Option α)} {vs : List α} :
    all (value :: values) = some vs ↔
      ∃ v rest, value = some v ∧ all values = some rest ∧ vs = v :: rest := by
  rw [all]
  cases value with
  | none => simp
  | some v =>
    rw [Option.bind_some, Option.map_eq_some_iff]
    constructor
    · rintro ⟨rest, hrest, rfl⟩
      exact ⟨v, rest, rfl, hrest, rfl⟩
    · rintro ⟨v', rest, hv, hrest, rfl⟩
      cases hv
      exact ⟨rest, hrest, rfl⟩

theorem all_isSome {α : Type} {values : List (Option α)} :
    (all values).isSome ↔ ∀ value ∈ values, value.isSome := by
  induction values with
  | nil => simp [all]
  | cons value values ih =>
    rw [List.forall_mem_cons, ← ih, all]
    cases value with
    | none => simp
    | some v => simp

theorem all_eq_some_iff {α : Type} {values : List (Option α)} {vs : List α} :
    all values = some vs ↔ List.Forall₂ (fun value v => value = some v) values vs := by
  induction values generalizing vs with
  | nil =>
    rw [all, Option.some.injEq, List.forall₂_nil_left_iff, eq_comm]
  | cons value values ih =>
    rw [all_cons_eq_some, List.forall₂_cons_left_iff]
    constructor
    · rintro ⟨v, rest, hv, hrest, rfl⟩
      exact ⟨v, rest, hv, ih.mp hrest, rfl⟩
    · rintro ⟨v, rest, hv, hrest, rfl⟩
      exact ⟨v, rest, hv, ih.mpr hrest, rfl⟩

theorem mem_of_all {α : Type} {values : List (Option α)} {vs : List α} {v : α}
    (h : all values = some vs) (hmem : some v ∈ values) : v ∈ vs := by
  induction values generalizing vs with
  | nil => cases hmem
  | cons value values ih =>
    obtain ⟨first, rest, hfirst, hrest, rfl⟩ := all_cons_eq_some.mp h
    rcases List.mem_cons.mp hmem with heq | hlater
    · rw [← heq] at hfirst
      cases hfirst
      exact List.mem_cons_self
    · exact List.mem_cons_of_mem _ (ih hrest hlater)

/-- A text with the value it should read as. -/
structure Part where
  text : List Char
  value : Option Value

/-- The texts with commas between them. -/
def commas (texts : List (List Char)) : List Char := List.intercalate [','] texts

@[simp] theorem commas_nil : commas [] = [] := rfl

@[simp] theorem commas_singleton (text : List Char) : commas [text] = text := by
  simp [commas, List.intercalate]

@[simp] theorem commas_cons_cons (text next : List Char) (texts : List (List Char)) :
    commas (text :: next :: texts) = text ++ ',' :: commas (next :: texts) := by
  simp [commas, List.intercalate]

theorem mem_commas {c : Char} {texts : List (List Char)} (h : c ∈ commas texts) :
    c = ',' ∨ ∃ text ∈ texts, c ∈ text := by
  induction texts with
  | nil => cases h
  | cons text texts ih =>
    cases texts with
    | nil =>
      rw [commas_singleton] at h
      exact Or.inr ⟨text, List.mem_cons_self, h⟩
    | cons next texts =>
      rw [commas_cons_cons, List.mem_append, List.mem_cons] at h
      rcases h with hfirst | hcomma | hlater
      · exact Or.inr ⟨text, List.mem_cons_self, hfirst⟩
      · exact Or.inl hcomma
      · rcases ih hlater with hcomma | ⟨text', hmem, hc⟩
        · exact Or.inl hcomma
        · exact Or.inr ⟨text', List.mem_cons_of_mem _ hmem, hc⟩

theorem elements_commas {parts : List Part} (hne : parts ≠ [])
    (h : ∀ part ∈ parts, Piece part.text part.value) {rest r : List Char} {vs : List Value} :
    Elements (commas (parts.map Part.text) ++ ']' :: rest) vs r ↔
      all (parts.map Part.value) = some vs ∧ r = rest := by
  have hclose : ∀ text, skip (']' :: text) = ']' :: text := skip_cons (by decide)
  have hcomma : ∀ text, skip (',' :: text) = ',' :: text := skip_cons (by decide)
  induction parts generalizing vs with
  | nil => exact absurd rfl hne
  | cons part parts ih =>
    obtain ⟨hpart, hparts⟩ := List.forall_mem_cons.mp h
    cases parts with
    | nil =>
      have hlast := fun v r => hpart.reads (']' :: rest) v r (delimited_cons (by decide) rest)
      simp only [List.map_cons, List.map_nil, commas_singleton, all_cons_eq_some]
      constructor
      · intro helements
        cases helements with
        | last hreads hskip =>
          obtain ⟨hvalue, rfl⟩ := (hlast _ _).mp hreads
          rw [hclose] at hskip
          cases hskip
          exact ⟨⟨_, [], hvalue, rfl, rfl⟩, rfl⟩
        | more hreads hskip _ =>
          obtain ⟨_, rfl⟩ := (hlast _ _).mp hreads
          rw [hclose] at hskip
          cases hskip
      · rintro ⟨⟨v, _, hvalue, hnil, rfl⟩, rfl⟩
        cases hnil
        exact .last ((hlast _ _).mpr ⟨hvalue, rfl⟩) (hclose r)
    | cons next parts =>
      have hmore := fun text v r => hpart.reads (',' :: text) v r (delimited_cons (by decide) text)
      have ih' := @ih (by simp) hparts
      simp only [List.map_cons, commas_cons_cons, List.append_assoc, List.cons_append] at ih' ⊢
      rw [all_cons_eq_some]
      constructor
      · intro helements
        cases helements with
        | last hreads hskip =>
          obtain ⟨_, rfl⟩ := (hmore _ _ _).mp hreads
          rw [hcomma] at hskip
          cases hskip
        | more hreads hskip hitems =>
          obtain ⟨hvalue, rfl⟩ := (hmore _ _ _).mp hreads
          rw [hcomma] at hskip
          cases hskip
          obtain ⟨hall, rfl⟩ := ih'.mp hitems
          exact ⟨⟨_, _, hvalue, hall, rfl⟩, rfl⟩
      · rintro ⟨⟨v, vs', hvalue, hall, rfl⟩, rfl⟩
        exact .more ((hmore _ _ _).mpr ⟨hvalue, rfl⟩) (hcomma _) (ih'.mpr ⟨hall, rfl⟩)

/-- An array of texts. -/
def arrayText (texts : List (List Char)) : List Char := '[' :: commas texts ++ [']']

/-- The value of an array of parts. -/
def arrayValue (parts : List Part) : Option Value := (all (parts.map Part.value)).map .array

theorem Solid.skip_ne {text : List Char} (h : Solid text) (rest tail : List Char) :
    skip (text ++ rest) ≠ ']' :: tail := by
  obtain ⟨c, front, rfl, hspace, hbracket⟩ := h
  rw [List.cons_append, skip_cons hspace]
  intro heq
  exact hbracket (List.cons.inj heq).1

theorem piece_array {parts : List Part} (h : ∀ part ∈ parts, Piece part.text part.value) :
    Piece (arrayText (parts.map Part.text)) (arrayValue parts) := by
  refine ⟨⟨_, _, rfl, by decide, by decide⟩, ?_⟩
  intro rest v r _
  have htext : arrayText (parts.map Part.text) ++ rest =
      '[' :: (commas (parts.map Part.text) ++ ']' :: rest) := by simp [arrayText]
  rw [htext, reads_array, arrayValue, Option.map_eq_some_iff]
  cases parts with
  | nil =>
    constructor
    · rintro (⟨hclose, rfl⟩ | ⟨items, hitems, _⟩)
      · rw [List.map_nil, commas_nil, List.nil_append, skip_cons (by decide)] at hclose
        cases hclose
        exact ⟨⟨[], rfl, rfl⟩, rfl⟩
      · -- no value begins with the bracket
        obtain ⟨value, behind, hreads⟩ : ∃ value behind, Reads (']' :: rest) value behind := by
          cases hitems with
          | last hreads _ => exact ⟨_, _, hreads⟩
          | more hreads _ _ => exact ⟨_, _, hreads⟩
        exact absurd hreads not_reads_bracket
    · rintro ⟨⟨items, hnil, rfl⟩, rfl⟩
      cases hnil
      exact Or.inl ⟨skip_cons (by decide) r, rfl⟩
  | cons part parts =>
    have hsolid : ∀ tail, skip (commas ((part :: parts).map Part.text) ++ ']' :: rest) ≠
        ']' :: tail := by
      have hfirst := (List.forall_mem_cons.mp h).1.solid
      intro tail
      cases parts with
      | nil => simpa using hfirst.skip_ne (']' :: rest) tail
      | cons next parts => simpa using hfirst.skip_ne _ tail
    rw [or_iff_right fun hclose => hsolid _ hclose.1]
    simp only [elements_commas (List.cons_ne_nil part parts) h]
    constructor
    · rintro ⟨items, ⟨hitems, rfl⟩, rfl⟩
      exact ⟨⟨items, hitems, rfl⟩, rfl⟩
    · rintro ⟨⟨items, hitems, rfl⟩, rfl⟩
      exact ⟨items, ⟨hitems, rfl⟩, rfl⟩

/-- A member of an object: its key, which needs no escape, and the part behind it. -/
structure Field where
  key : List Char
  text : List Char
  value : Option Value

def Field.member (field : Field) : List Char := '"' :: field.key ++ '"' :: ':' :: field.text

/-- The key with the value, if there is one. -/
def Field.entry (field : Field) : Option (List Nat × Value) :=
  field.value.map fun v => (units field.key, v)

structure Field.Good (field : Field) : Prop where
  plain : Plain field.key
  piece : Piece field.text field.value

/-- An object of fields. -/
def objectText (fields : List Field) : List Char :=
  '\x7b' :: commas (fields.map Field.member) ++ ['\x7d']

/-- The value of an object of fields. -/
def objectValue (fields : List Field) : Option Value :=
  (all (fields.map Field.entry)).map .object

theorem isSome_objectValue {fields : List Field} :
    (objectValue fields).isSome ↔ ∀ f ∈ fields, f.value.isSome := by
  have hentry : ∀ f : Field, f.entry.isSome ↔ f.value.isSome := fun f => by simp [Field.entry]
  rw [objectValue, Option.isSome_map, all_isSome, List.forall_mem_map]
  exact forall₂_congr fun f _ => hentry f

/-- An object shows the value of each of its fields. -/
theorem exists_member {text : List Char} {fields : List Field}
    (hpiece : Piece text (objectValue fields)) (hsome : ∀ f ∈ fields, f.value.isSome)
    {field : Field} (hfield : field ∈ fields) {v : Value} (hv : field.value = some v) :
    ∃ members, Document text (.object members) ∧ (units field.key, v) ∈ members := by
  obtain ⟨value, hvalue⟩ := Option.isSome_iff_exists.mp (isSome_objectValue.mpr hsome)
  obtain ⟨members, hmembers, rfl⟩ := Option.map_eq_some_iff.mp hvalue
  refine ⟨members, hpiece.document_iff.mpr hvalue, mem_of_all hmembers ?_⟩
  rw [List.mem_map]
  exact ⟨field, hfield, by rw [Field.entry, hv]; rfl⟩

/-- The parts of a member are those of its field. -/
theorem Field.Good.member_iff {field : Field} (h : field.Good) {text behind : List Char}
    {key : List Nat} {v : Value} (htext : Delimited text) :
    (∃ body colon inner, skip (field.member ++ text) = '"' :: body ∧
        string body = some (key, colon) ∧ skip colon = ':' :: inner ∧ Reads inner v behind) ↔
      field.entry = some (key, v) ∧ behind = text := by
  have hopen : skip (field.member ++ text) =
      '"' :: (field.key ++ '"' :: (':' :: (field.text ++ text))) := by
    simp [member, skip_cons (show isSpace '"' = false by decide)]
  have hname := string_of_plain h.plain (':' :: (field.text ++ text))
  have hsep : skip (':' :: (field.text ++ text)) = ':' :: (field.text ++ text) :=
    skip_cons (by decide) _
  have hreads := h.piece.reads text v behind htext
  rw [entry, Option.map_eq_some_iff]
  constructor
  · rintro ⟨body, colon, inner, hbody, hstring, hcolon, hinner⟩
    rw [hopen] at hbody
    cases hbody
    rw [hname] at hstring
    cases hstring
    rw [hsep] at hcolon
    cases hcolon
    obtain ⟨hvalue, rfl⟩ := hreads.mp hinner
    exact ⟨⟨v, hvalue, rfl⟩, rfl⟩
  · rintro ⟨⟨v', hvalue, heq⟩, rfl⟩
    cases heq
    exact ⟨_, _, _, hopen, hname, hsep, hreads.mpr ⟨hvalue, rfl⟩⟩

theorem members_commas {fields : List Field} (hne : fields ≠ [])
    (h : ∀ field ∈ fields, field.Good) {rest r : List Char} {ms : List (List Nat × Value)} :
    Members (commas (fields.map Field.member) ++ '\x7d' :: rest) ms r ↔
      all (fields.map Field.entry) = some ms ∧ r = rest := by
  have hclose : ∀ text, skip ('\x7d' :: text) = '\x7d' :: text := skip_cons (by decide)
  have hcomma : ∀ text, skip (',' :: text) = ',' :: text := skip_cons (by decide)
  induction fields generalizing ms with
  | nil => exact absurd rfl hne
  | cons field fields ih =>
    obtain ⟨hfield, hfields⟩ := List.forall_mem_cons.mp h
    cases fields with
    | nil =>
      have hlast := fun key v behind =>
        @Field.Good.member_iff field hfield _ behind key v
          (delimited_cons (show isDelimiter '\x7d' = true by decide) rest)
      simp only [List.map_cons, List.map_nil, commas_singleton, all_cons_eq_some]
      constructor
      · intro hmembers
        cases hmembers with
        | last hopen hname hsep hreads hskip =>
          obtain ⟨hentry, rfl⟩ := (hlast _ _ _).mp ⟨_, _, _, hopen, hname, hsep, hreads⟩
          rw [hclose] at hskip
          cases hskip
          exact ⟨⟨_, [], hentry, rfl, rfl⟩, rfl⟩
        | more hopen hname hsep hreads hskip _ =>
          obtain ⟨_, rfl⟩ := (hlast _ _ _).mp ⟨_, _, _, hopen, hname, hsep, hreads⟩
          rw [hclose] at hskip
          cases hskip
      · rintro ⟨⟨entry, _, hentry, hnil, rfl⟩, rfl⟩
        cases hnil
        obtain ⟨_, _, _, hopen, hname, hsep, hreads⟩ := (hlast _ _ _).mpr ⟨hentry, rfl⟩
        exact .last hopen hname hsep hreads (hclose r)
    | cons next fields =>
      have hmore := fun text key v behind =>
        @Field.Good.member_iff field hfield _ behind key v
          (delimited_cons (show isDelimiter ',' = true by decide) text)
      have ih' := @ih (by simp) hfields
      simp only [List.map_cons, commas_cons_cons, List.append_assoc, List.cons_append] at ih' ⊢
      rw [all_cons_eq_some]
      constructor
      · intro hmembers
        cases hmembers with
        | last hopen hname hsep hreads hskip =>
          obtain ⟨_, rfl⟩ := (hmore _ _ _ _).mp ⟨_, _, _, hopen, hname, hsep, hreads⟩
          rw [hcomma] at hskip
          cases hskip
        | more hopen hname hsep hreads hskip hrest =>
          obtain ⟨hentry, rfl⟩ := (hmore _ _ _ _).mp ⟨_, _, _, hopen, hname, hsep, hreads⟩
          rw [hcomma] at hskip
          cases hskip
          obtain ⟨hall, rfl⟩ := ih'.mp hrest
          exact ⟨⟨_, _, hentry, hall, rfl⟩, rfl⟩
      · rintro ⟨⟨entry, ms', hentry, hall, rfl⟩, rfl⟩
        obtain ⟨_, _, _, hopen, hname, hsep, hreads⟩ := (hmore _ _ _ _).mpr ⟨hentry, rfl⟩
        exact .more hopen hname hsep hreads (hcomma _) (ih'.mpr ⟨hall, rfl⟩)

theorem piece_object {fields : List Field} (hne : fields ≠ [])
    (h : ∀ field ∈ fields, field.Good) : Piece (objectText fields) (objectValue fields) := by
  refine ⟨⟨_, _, rfl, by decide, by decide⟩, ?_⟩
  intro rest v r _
  have htext : objectText fields ++ rest =
      '\x7b' :: (commas (fields.map Field.member) ++ '\x7d' :: rest) := by simp [objectText]
  have hopen : ∀ tail, skip (commas (fields.map Field.member) ++ '\x7d' :: rest) ≠
      '\x7d' :: tail := by
    intro tail
    cases fields with
    | nil => exact absurd rfl hne
    | cons field fields =>
      cases fields <;> simp [Field.member, skip_cons (show isSpace '"' = false by decide)]
  rw [htext, reads_object, objectValue, Option.map_eq_some_iff,
    or_iff_right fun hclose => hopen _ hclose.1]
  simp only [members_commas hne h]
  constructor
  · rintro ⟨members, ⟨hmembers, rfl⟩, rfl⟩
    exact ⟨⟨members, hmembers, rfl⟩, rfl⟩
  · rintro ⟨⟨members, hmembers, rfl⟩, rfl⟩
    exact ⟨members, ⟨hmembers, rfl⟩, rfl⟩

end Json
