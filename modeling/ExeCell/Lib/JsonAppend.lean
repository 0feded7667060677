import ExeCell.Lib.JsonPieces

/-!
# Putting JSON of others together

A text that is a document by itself can stand as an element of an array or as the value of
a member (`Document.fits`), so that an array of such texts is a document of their values
(`fits_array`). Nothing is said about a text that is no document.
-/

namespace Json

/-! ## More text behind a token -/

section Tokens

variable {text more rest : List Char}

theorem skip_append {c : Char} {tail : List Char} (h : skip text = c :: tail) :
    skip (text ++ more) = c :: (tail ++ more) := by
  rw [skip, List.dropWhile_append, ← skip, h]
  rfl

theorem skip_append_of_nil (h : skip text = []) : skip (text ++ more) = skip more := by
  rw [skip, List.dropWhile_append, ← skip, h]
  rfl

theorem string_append {us : List Nat} (h : string text = some (us, rest)) :
    string (text ++ more) = some (us, rest ++ more) := by
  have hlater : ∀ {text : List Char} {u : Nat} {us : List Nat},
      (∀ {us : List Nat}, string text = some (us, rest) →
        string (text ++ more) = some (us, rest ++ more)) →
      (string text).map (unit u) = some (us, rest) →
      (string (text ++ more)).map (unit u) = some (us, rest ++ more) := by
    intro text u us ih h
    obtain ⟨⟨later, behind⟩, hlater, hunit⟩ := Option.map_eq_some_iff.mp h
    cases hunit
    rw [ih hlater]
    rfl
  induction text using string.induct generalizing us with
  | case1 => cases h
  | case2 text =>
    rw [string_quote] at h
    cases h
    exact string_quote _
  | case3 => cases h
  | case4 h₁ h₂ h₃ h₄ text _ ih =>
    simp only [List.cons_append, string_unicode] at h ⊢
    obtain ⟨u, hu, hmap⟩ := Option.bind_eq_some_iff.mp h
    rw [hu, Option.bind_some]
    exact hlater ih hmap
  | case5 text _ _ =>
    rw [string.eq_def] at h
    simp only [if_neg (by decide : ¬ '\\' = '"'), if_pos] at h
    cases h
  | case6 e text he _ ih =>
    have hescape : ∀ text, string ('\\' :: e :: text) =
        (shortEscape e).bind fun u => (string text).map (unit u) := by
      intro text
      rw [string.eq_def]
      simp only [if_neg (by decide : ¬ '\\' = '"'), if_pos, if_neg he]
    simp only [List.cons_append, hescape] at h ⊢
    obtain ⟨u, hu, hmap⟩ := Option.bind_eq_some_iff.mp h
    rw [hu, Option.bind_some]
    exact hlater ih hmap
  | case7 c text _ _ hcontrol =>
    rw [string_control hcontrol] at h
    cases h
  | case8 c text hquote hslash hcontrol ih =>
    rw [List.cons_append, string_plain hquote hslash (Nat.le_of_not_lt hcontrol)]
    rw [string_plain hquote hslash (Nat.le_of_not_lt hcontrol)] at h
    exact hlater ih h

theorem span_append (h : Delimited more) :
    (text ++ more).takeWhile Char.isDigit = text.takeWhile Char.isDigit ∧
      (text ++ more).dropWhile Char.isDigit = text.dropWhile Char.isDigit ++ more := by
  induction text with
  | nil =>
    cases more with
    | nil => exact ⟨rfl, rfl⟩
    | cons c more => simp [h.of_digit c rfl]
  | cons c text ih =>
    by_cases hc : c.isDigit = true
    · simp [hc, ih]
    · simp [hc]

theorem integer_append (h : Delimited more) {whole : List Char}
    (hinteger : integer text = some (whole, rest)) :
    integer (text ++ more) = some (whole, rest ++ more) := by
  cases text with
  | nil => cases hinteger
  | cons c text =>
    rw [List.cons_append, integer, (span_append h).1, (span_append h).2]
    rw [integer] at hinteger
    split_ifs at hinteger ⊢
    · cases hinteger
      rfl
    · cases hinteger
      rfl

theorem digits_append (h : Delimited more) {lead part : List Char}
    (hdigits : digits lead text = some (part, rest)) :
    digits lead (text ++ more) = some (part, rest ++ more) := by
  rw [digits, (span_append h).1, (span_append h).2]
  rw [digits] at hdigits
  split_ifs at hdigits ⊢
  cases hdigits
  rfl

theorem fraction_append (h : Delimited more) {part : List Char}
    (hfraction : fraction text = some (part, rest)) :
    fraction (text ++ more) = some (part, rest ++ more) := by
  cases text with
  | nil =>
    cases hfraction
    exact fraction_delimited h
  | cons c text =>
    rw [fraction] at hfraction
    rw [List.cons_append, fraction]
    split_ifs at hfraction ⊢
    · exact digits_append h hfraction
    · cases hfraction
      rfl

theorem exponent_append (h : Delimited more) {part : List Char}
    (hexponent : exponent text = some (part, rest)) :
    exponent (text ++ more) = some (part, rest ++ more) := by
  cases text with
  | nil =>
    cases hexponent
    exact exponent_delimited h
  | cons c text =>
    rw [exponent.eq_def] at hexponent
    rw [List.cons_append, exponent.eq_def]
    dsimp only at hexponent ⊢
    split_ifs at hexponent ⊢
    · cases text with
      | nil => cases hexponent
      | cons sign text =>
        dsimp only [List.cons_append] at hexponent ⊢
        split_ifs at hexponent ⊢
        · exact digits_append h hexponent
        · exact digits_append h hexponent
    · cases hexponent
      rfl

theorem unsigned_append (h : Delimited more) {literal : List Char}
    (hunsigned : unsigned text = some (literal, rest)) :
    unsigned (text ++ more) = some (literal, rest ++ more) := by
  obtain ⟨⟨whole, text₁⟩, hwhole, hrest⟩ := Option.bind_eq_some_iff.mp hunsigned
  obtain ⟨⟨part, text₂⟩, hpart, hmap⟩ := Option.bind_eq_some_iff.mp hrest
  obtain ⟨⟨power, text₃⟩, hpower, heq⟩ := Option.map_eq_some_iff.mp hmap
  cases heq
  rw [unsigned, integer_append h hwhole, Option.bind_some, fraction_append h hpart,
    Option.bind_some, exponent_append h hpower]
  rfl

theorem number_append (h : Delimited more) {literal : List Char}
    (hnumber : number text = some (literal, rest)) :
    number (text ++ more) = some (literal, rest ++ more) := by
  cases text with
  | nil => cases hnumber
  | cons c text =>
    rw [number] at hnumber
    rw [List.cons_append, number]
    split_ifs at hnumber ⊢
    · obtain ⟨⟨digits, behind⟩, hunsigned, heq⟩ := Option.map_eq_some_iff.mp hnumber
      cases heq
      rw [unsigned_append h hunsigned]
      rfl
    · exact unsigned_append h hnumber

end Tokens

/-! ## More text behind a value -/

mutual

theorem Reads.append {text rest more : List Char} {value : Value} (h : Reads text value rest)
    (hmore : Delimited more) : Reads (text ++ more) value (rest ++ more) := by
  cases h with
  | null hskip => exact .null (by rw [skip_append hskip]; rfl)
  | false hskip => exact .false (by rw [skip_append hskip]; rfl)
  | true hskip => exact .true (by rw [skip_append hskip]; rfl)
  | number hnumber =>
    cases hskip : skip text with
    | nil =>
      rw [hskip] at hnumber
      cases hnumber
    | cons c tail =>
      rw [hskip] at hnumber
      apply Reads.number
      rw [skip_append hskip]
      exact number_append hmore hnumber
  | string hskip hstring => exact .string (skip_append hskip) (string_append hstring)
  | emptyArray hskip hclose => exact .emptyArray (skip_append hskip) (skip_append hclose)
  | array hskip hitems => exact .array (skip_append hskip) (hitems.append hmore)
  | emptyObject hskip hclose => exact .emptyObject (skip_append hskip) (skip_append hclose)
  | object hskip hmembers => exact .object (skip_append hskip) (hmembers.append hmore)

theorem Elements.append {text rest more : List Char} {items : List Value}
    (h : Elements text items rest) (hmore : Delimited more) :
    Elements (text ++ more) items (rest ++ more) := by
  cases h with
  | last hreads hskip => exact .last (hreads.append hmore) (skip_append hskip)
  | more hreads hskip hitems =>
    exact .more (hreads.append hmore) (skip_append hskip) (hitems.append hmore)

theorem Members.append {text rest more : List Char} {members : List (List Nat × Value)}
    (h : Members text members rest) (hmore : Delimited more) :
    Members (text ++ more) members (rest ++ more) := by
  cases h with
  | last hopen hname hsep hreads hskip =>
    exact .last (skip_append hopen) (string_append hname) (skip_append hsep)
      (hreads.append hmore) (skip_append hskip)
  | more hopen hname hsep hreads hskip hmembers =>
    exact .more (skip_append hopen) (string_append hname) (skip_append hsep)
      (hreads.append hmore) (skip_append hskip) (hmembers.append hmore)

end

/-! ## Documents as parts -/

/-- A choice for every element of a list. -/
theorem exists_forall₂_iff {α β : Type} {R : α → β → Prop} {l : List α} :
    (∃ l', List.Forall₂ R l l') ↔ ∀ a ∈ l, ∃ b, R a b := by
  induction l with
  | nil => exact iff_of_true ⟨[], .nil⟩ (List.forall_mem_nil _)
  | cons a l ih =>
    rw [List.forall_mem_cons, ← ih]
    constructor
    · rintro ⟨l', h⟩
      obtain ⟨b, l', hfirst, hlater, _⟩ := List.forall₂_cons_left_iff.mp h
      exact ⟨⟨b, hfirst⟩, l', hlater⟩
    · rintro ⟨⟨b, hfirst⟩, l', hlater⟩
      exact ⟨b :: l', .cons hfirst hlater⟩

/-- Before a delimiter the text reads as the value, with nothing but space behind it. -/
def Fits (text : List Char) (value : Value) : Prop :=
  ∀ rest, Delimited rest → ∃ behind, Reads (text ++ rest) value behind ∧ skip behind = skip rest

theorem Document.fits {text : List Char} {value : Value} (h : Document text value) :
    Fits text value := by
  obtain ⟨behind, hreads, hskip⟩ := h
  intro rest hrest
  exact ⟨behind ++ rest, hreads.append hrest, skip_append_of_nil hskip⟩

/-- A line end behind a document. -/
theorem Fits.document_line {text : List Char} {value : Value} (h : Fits text value) :
    Document (text ++ ['\n']) value := by
  obtain ⟨behind, hreads, hskip⟩ := h ['\n'] (delimited_cons (by decide) [])
  exact ⟨behind, hreads, hskip⟩

theorem elements_fits {texts : List (List Char)} {values : List Value} (hne : texts ≠ [])
    (h : List.Forall₂ Fits texts values) (rest : List Char) :
    Elements (commas texts ++ ']' :: rest) values rest := by
  have hclose : ∀ text, skip (']' :: text) = ']' :: text := skip_cons (by decide)
  have hcomma : ∀ text, skip (',' :: text) = ',' :: text := skip_cons (by decide)
  induction h with
  | nil => exact absurd rfl hne
  | @cons text value texts values hfirst hlater ih =>
    cases texts with
    | nil =>
      cases hlater
      obtain ⟨behind, hreads, hskip⟩ := hfirst (']' :: rest) (delimited_cons (by decide) rest)
      rw [commas_singleton]
      exact .last hreads (hskip.trans (hclose rest))
    | cons next texts =>
      rw [commas_cons_cons, List.append_assoc, List.cons_append]
      obtain ⟨behind, hreads, hskip⟩ :=
        hfirst (',' :: (commas (next :: texts) ++ ']' :: rest)) (delimited_cons (by decide) _)
      exact .more hreads (hskip.trans (hcomma _)) (ih (by simp))

/-- An array of documents. -/
theorem fits_array {texts : List (List Char)} {values : List Value}
    (h : List.Forall₂ Fits texts values) : Fits (arrayText texts) (.array values) := by
  intro rest _
  have hopen : ∀ text, skip ('[' :: text) = '[' :: text := skip_cons (by decide)
  have htext : arrayText texts ++ rest = '[' :: (commas texts ++ ']' :: rest) := by
    simp [arrayText]
  rw [htext]
  cases texts with
  | nil =>
    cases h
    exact ⟨rest, .emptyArray (hopen _) (skip_cons (by decide) _), rfl⟩
  | cons text texts =>
    exact ⟨rest, .array (hopen _) (elements_fits (List.cons_ne_nil _ _) h rest), rfl⟩

theorem Piece.fits {text : List Char} {value : Value} (h : Piece text (some value)) :
    Fits text value := by
  intro rest hrest
  exact ⟨rest, (h.reads rest value rest hrest).mpr ⟨rfl, rfl⟩, rfl⟩

/-- The field is written as a member with this key and value. -/
def Field.Shows (field : Field) (member : List Nat × Value) : Prop :=
  Plain field.key ∧ units field.key = member.1 ∧ Fits field.text member.2

theorem members_fits {fields : List Field} {members : List (List Nat × Value)} (hne : fields ≠ [])
    (h : List.Forall₂ Field.Shows fields members) (rest : List Char) :
    Members (commas (fields.map Field.member) ++ '\x7d' :: rest) members rest := by
  have hclose : ∀ text, skip ('\x7d' :: text) = '\x7d' :: text := skip_cons (by decide)
  have hcomma : ∀ text, skip (',' :: text) = ',' :: text := skip_cons (by decide)
  have hopen : ∀ (field : Field) text, skip (field.member ++ text) =
      '"' :: (field.key ++ '"' :: (':' :: (field.text ++ text))) := by
    intro field text
    simp [Field.member, skip_cons (show isSpace '"' = false by decide)]
  have hsep : ∀ text, skip (':' :: text) = ':' :: text := skip_cons (by decide)
  induction h with
  | nil => exact absurd rfl hne
  | @cons field member fields members hfirst hlater ih =>
    obtain ⟨key, value⟩ := member
    obtain ⟨hplain, hkey, hfits⟩ := hfirst
    subst hkey
    cases fields with
    | nil =>
      cases hlater
      obtain ⟨behind, hreads, hskip⟩ := hfits ('\x7d' :: rest) (delimited_cons (by decide) rest)
      rw [List.map_cons, List.map_nil, commas_singleton]
      exact .last (hopen _ _) (string_of_plain hplain _) (hsep _) hreads (hskip.trans (hclose rest))
    | cons next fields =>
      rw [List.map_cons, List.map_cons, commas_cons_cons, ← List.map_cons, List.append_assoc,
        List.cons_append]
      obtain ⟨behind, hreads, hskip⟩ := hfits
        (',' :: (commas ((next :: fields).map Field.member) ++ '\x7d' :: rest))
        (delimited_cons (by decide) _)
      exact .more (hopen _ _) (string_of_plain hplain _) (hsep _) hreads (hskip.trans (hcomma _))
        (ih (by simp))

/-- An object of documents. -/
theorem fits_object {fields : List Field} {members : List (List Nat × Value)} (hne : fields ≠ [])
    (h : List.Forall₂ Field.Shows fields members) : Fits (objectText fields) (.object members) := by
  intro rest _
  have htext : objectText fields ++ rest =
      '\x7b' :: (commas (fields.map Field.member) ++ '\x7d' :: rest) := by simp [objectText]
  rw [htext]
  exact ⟨rest, .object (skip_cons (by decide) _) (members_fits hne h rest), rfl⟩

end Json
