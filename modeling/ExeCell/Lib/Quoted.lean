import Mathlib.Data.List.Infix
import ExeCell.Lib.JsonPieces

/-!
# Where a literal ends

In an escaped text no quote stands by itself, so the first quote behind it is the one that
closes the literal (`Escaped.split`). Two consequences:

* a text put together from literals, numbers and punctuation can be taken apart again
  (`objectText_injective`);
* a search for a key and its value, quotes included, does not find anything inside a
  literal (`Escaped.skip`), and in an object only the field under the key
  (`infix_object_iff`).
-/

namespace Json

/-- The contents of a literal: every quote and every backslash stands behind a backslash. -/
inductive Escaped : List Char → Prop
  | nil : Escaped []
  | plain {c : Char} {text : List Char} :
    c ≠ '"' → c ≠ '\\' → Escaped text → Escaped (c :: text)
  | pair {c : Char} {text : List Char} : Escaped text → Escaped ('\\' :: c :: text)

theorem Escaped.append {text more : List Char} (h : Escaped text) (hmore : Escaped more) :
    Escaped (text ++ more) := by
  induction h with
  | nil => exact hmore
  | plain hquote hslash _ ih => exact .plain hquote hslash ih
  | pair _ ih => exact .pair ih

theorem escaped_flatMap {escape : Char → List Char} {text : List Char}
    (h : ∀ c ∈ text, Escaped (escape c)) : Escaped (text.flatMap escape) := by
  induction text with
  | nil => exact .nil
  | cons c text ih =>
    obtain ⟨hc, htext⟩ := List.forall_mem_cons.mp h
    rw [List.flatMap_cons]
    exact hc.append (ih htext)

theorem escaped_of_plain {text : List Char} (h : ∀ c ∈ text, c ≠ '"' ∧ c ≠ '\\') :
    Escaped text := by
  induction text with
  | nil => exact .nil
  | cons c text ih =>
    obtain ⟨⟨hquote, hslash⟩, htext⟩ := List.forall_mem_cons.mp h
    exact .plain hquote hslash (ih htext)

/-- A writer of short escapes leaves no quote and no backslash by itself. -/
theorem Shortens.escaped {escape : Char → List Char} (h : Shortens escape) (text : List Char) :
    Escaped (text.flatMap escape) := by
  apply escaped_flatMap
  intro c _
  rcases h c with ⟨e, _, hescape⟩ | ⟨hescape, hquote, hslash⟩
  · rw [hescape]
    exact .pair .nil
  · rw [hescape]
    exact .plain hquote hslash .nil

theorem Shortens.ne_nil {escape : Char → List Char} (h : Shortens escape) (c : Char) :
    escape c ≠ [] := by
  rcases h c with ⟨e, _, hescape⟩ | ⟨hescape, _, _⟩
  · rw [hescape]
    exact List.cons_ne_nil _ _
  · rw [hescape]
    exact List.cons_ne_nil _ _

/-- The first character of a written text can be told. -/
theorem Shortens.split {escape : Char → List Char} (h : Shortens escape) {c c' : Char}
    {rest rest' : List Char} (heq : escape c ++ rest = escape c' ++ rest') :
    c = c' ∧ rest = rest' := by
  rcases h c with ⟨e, hshort, hescape⟩ | ⟨hescape, _, hslash⟩
  · rcases h c' with ⟨e', hshort', hescape'⟩ | ⟨hescape', _, hslash'⟩
    · rw [hescape, hescape'] at heq
      obtain ⟨rfl, hrests⟩ := List.cons.inj (List.cons.inj heq).2
      rw [hshort, Option.some.injEq] at hshort'
      exact ⟨Char.toNat_inj.mp hshort', hrests⟩
    · rw [hescape, hescape'] at heq
      exact absurd (List.cons.inj heq).1.symm hslash'
  · rcases h c' with ⟨e', _, hescape'⟩ | ⟨hescape', _, _⟩
    · rw [hescape, hescape'] at heq
      exact absurd (List.cons.inj heq).1 hslash
    · rw [hescape, hescape'] at heq
      exact List.cons.inj heq

/-- Different texts are written differently. -/
theorem Shortens.flatMap_inj {escape : Char → List Char} (h : Shortens escape)
    {text text' : List Char} (heq : text.flatMap escape = text'.flatMap escape) : text = text' := by
  induction text generalizing text' with
  | nil =>
    cases text' with
    | nil => rfl
    | cons c text' => exact absurd (List.append_eq_nil_iff.mp heq.symm).1 (h.ne_nil c)
  | cons c text ih =>
    cases text' with
    | nil => exact absurd (List.append_eq_nil_iff.mp heq).1 (h.ne_nil c)
    | cons c' text' =>
      obtain ⟨rfl, htail⟩ := h.split heq
      rw [ih htail]

/-- The first quote behind an escaped text can be told. -/
theorem Escaped.split {text text' rest rest' : List Char} (h : Escaped text) (h' : Escaped text')
    (heq : text ++ '"' :: rest = text' ++ '"' :: rest') : text = text' ∧ rest = rest' := by
  induction h generalizing text' with
  | nil =>
    cases h' with
    | nil => exact ⟨rfl, (List.cons.inj heq).2⟩
    | plain hquote _ _ => exact absurd (List.cons.inj heq).1.symm hquote
    | pair _ => exact absurd (List.cons.inj heq).1 (by decide)
  | plain hquote hslash _ ih =>
    cases h' with
    | nil => exact absurd (List.cons.inj heq).1 hquote
    | plain _ _ hrest =>
      obtain ⟨rfl, htail⟩ := List.cons.inj heq
      obtain ⟨rfl, hrests⟩ := ih hrest htail
      exact ⟨rfl, hrests⟩
    | pair _ => exact absurd (List.cons.inj heq).1 hslash
  | pair _ ih =>
    cases h' with
    | nil => exact absurd (List.cons.inj heq).1 (by decide)
    | plain _ hslash _ => exact absurd (List.cons.inj heq).1.symm hslash
    | pair hrest =>
      obtain ⟨rfl, htail⟩ := List.cons.inj (List.cons.inj heq).2
      obtain ⟨rfl, hrests⟩ := ih hrest htail
      exact ⟨rfl, hrests⟩

/-! ## Taking an object apart -/

/-- A literal, or a text like a number that has neither a quote nor a delimiter in it. -/
inductive Atom : List Char → Prop
  | literal {body : List Char} : Escaped body → Atom ('"' :: body ++ ['"'])
  | word {text : List Char} :
    text ≠ [] → (∀ c ∈ text, c ≠ '"' ∧ isDelimiter c = false) → Atom text

theorem word_split {text text' rest rest' : List Char}
    (h : ∀ c ∈ text, isDelimiter c = false) (h' : ∀ c ∈ text', isDelimiter c = false)
    (hrest : Delimited rest) (hrest' : Delimited rest') (heq : text ++ rest = text' ++ rest') :
    text = text' ∧ rest = rest' := by
  induction text generalizing text' with
  | nil =>
    cases text' with
    | nil => exact ⟨rfl, heq⟩
    | cons c text' =>
      have hrest : rest = c :: (text' ++ rest') := heq
      have hc := h' c List.mem_cons_self
      rw [‹Delimited rest› c (by rw [hrest]; rfl)] at hc
      cases hc
  | cons c text ih =>
    obtain ⟨hc, htext⟩ := List.forall_mem_cons.mp h
    cases text' with
    | nil =>
      have hrest : rest' = c :: (text ++ rest) := heq.symm
      rw [hrest' c (by rw [hrest]; rfl)] at hc
      cases hc
    | cons c' text' =>
      obtain ⟨rfl, htail⟩ := List.cons.inj heq
      obtain ⟨rfl, hrests⟩ := ih htext (List.forall_mem_cons.mp h').2 htail
      exact ⟨rfl, hrests⟩

theorem Atom.split {text text' rest rest' : List Char} (h : Atom text) (h' : Atom text')
    (hrest : Delimited rest) (hrest' : Delimited rest') (heq : text ++ rest = text' ++ rest') :
    text = text' ∧ rest = rest' := by
  have hother : ∀ {body word r r' : List Char}, word ≠ [] →
      (∀ c ∈ word, c ≠ '"' ∧ isDelimiter c = false) →
      '"' :: body ++ ['"'] ++ r ≠ word ++ r' := by
    intro body word r r' hne hword heq
    cases word with
    | nil => exact hne rfl
    | cons c word => exact (List.forall_mem_cons.mp hword).1.1 (List.cons.inj heq).1.symm
  cases h with
  | literal hbody =>
    cases h' with
    | literal hbody' =>
      simp only [List.cons_append, List.append_assoc, List.nil_append, List.cons.injEq,
        true_and] at heq
      obtain ⟨rfl, hrests⟩ := hbody.split hbody' heq
      exact ⟨rfl, hrests⟩
    | word hne hword => exact absurd heq (hother hne hword)
  | word hne hword =>
    cases h' with
    | literal hbody' => exact absurd heq.symm (hother hne hword)
    | word hne' hword' =>
      exact word_split (fun c hc => (hword c hc).2) (fun c hc => (hword' c hc).2) hrest hrest' heq

/-- What stands in the text of a field. -/
def Field.written (field : Field) : List Char × List Char := (field.key, field.text)

/-- A field whose end can be told. -/
structure Field.Closed (field : Field) : Prop where
  plain : Plain field.key
  atom : Atom field.text

theorem Field.Closed.split {field field' : Field} {rest rest' : List Char} (h : field.Closed)
    (h' : field'.Closed) (hrest : Delimited rest) (hrest' : Delimited rest')
    (heq : field.member ++ rest = field'.member ++ rest') :
    field.written = field'.written ∧ rest = rest' := by
  have hkey : ∀ f : Field, f.Closed → Escaped f.key := fun f hf =>
    escaped_of_plain fun c hc => ⟨(hf.plain c hc).1, (hf.plain c hc).2.1⟩
  simp only [member, List.cons_append, List.append_assoc, List.cons.injEq, true_and] at heq
  obtain ⟨hkeys, htails⟩ := (hkey field h).split (hkey field' h') heq
  obtain ⟨htexts, hrests⟩ := h.atom.split h'.atom hrest hrest' (List.cons.inj htails).2
  exact ⟨Prod.ext hkeys htexts, hrests⟩

theorem members_injective {fields fields' : List Field} (hne : fields ≠ []) (hne' : fields' ≠ [])
    (h : ∀ field ∈ fields, field.Closed) (h' : ∀ field ∈ fields', field.Closed)
    (heq : commas (fields.map Field.member) ++ ['\x7d'] =
      commas (fields'.map Field.member) ++ ['\x7d']) :
    fields.map Field.written = fields'.map Field.written := by
  have hclose : Delimited ['\x7d'] := delimited_cons (by decide) []
  have hcomma : ∀ text, Delimited (',' :: text) := delimited_cons (by decide)
  induction fields generalizing fields' with
  | nil => exact absurd rfl hne
  | cons field fields ih =>
    obtain ⟨hfield, hfields⟩ := List.forall_mem_cons.mp h
    cases fields' with
    | nil => exact absurd rfl hne'
    | cons field' fields' =>
      obtain ⟨hfield', hfields'⟩ := List.forall_mem_cons.mp h'
      cases fields with
      | nil =>
        cases fields' with
        | nil =>
          simp only [List.map_cons, List.map_nil, commas_singleton] at heq
          obtain ⟨hwritten, _⟩ := hfield.split hfield' hclose hclose heq
          rw [List.map_cons, List.map_cons, hwritten]
        | cons next' fields' =>
          simp only [List.map_cons, List.map_nil, commas_singleton, commas_cons_cons,
            List.append_assoc, List.cons_append] at heq
          obtain ⟨_, hrests⟩ := hfield.split hfield' hclose (hcomma _) heq
          exact absurd (List.cons.inj hrests).1 (by decide)
      | cons next fields =>
        cases fields' with
        | nil =>
          simp only [List.map_cons, List.map_nil, commas_singleton, commas_cons_cons,
            List.append_assoc, List.cons_append] at heq
          obtain ⟨_, hrests⟩ := hfield.split hfield' (hcomma _) hclose heq
          exact absurd (List.cons.inj hrests).1 (by decide)
        | cons next' fields' =>
          simp only [List.map_cons, commas_cons_cons, List.append_assoc, List.cons_append] at heq
          obtain ⟨hwritten, hrests⟩ := hfield.split hfield' (hcomma _) (hcomma _) heq
          have htail := @ih (next' :: fields') (by simp) (by simp) hfields hfields'
            (by simpa using (List.cons.inj hrests).2)
          exact congrArg₂ List.cons hwritten htail

/-- An object says which fields it was made of. -/
theorem objectText_injective {fields fields' : List Field} (hne : fields ≠ [])
    (hne' : fields' ≠ []) (h : ∀ field ∈ fields, field.Closed)
    (h' : ∀ field ∈ fields', field.Closed) (heq : objectText fields = objectText fields') :
    fields.map Field.written = fields'.map Field.written :=
  members_injective hne hne' h h' (List.cons.inj heq).2

/-! ## Searching for a key and its value -/

section Search

/-- A key with its value as they stand in an object, up to where the value ends or goes on. -/
def entryText (key value : List Char) : List Char :=
  '"' :: key ++ '"' :: ':' :: value

variable {key value : List Char}

/-- The text goes on neither with a colon nor with the key. -/
def Behind (key tail : List Char) : Prop :=
  (∀ c ∈ tail.head?, c ≠ ':') ∧ (∀ c ∈ tail.head?, ∀ k ∈ key.head?, c ≠ k)

theorem Escaped.not_begins_key {body tail : List Char} (hkey : Escaped key) (h : Escaped body)
    (hcolon : ∀ c ∈ tail.head?, c ≠ ':') :
    ¬ key ++ '"' :: ':' :: value <+: body ++ '"' :: tail := by
  rintro ⟨rest, heq⟩
  rw [List.append_assoc, List.cons_append] at heq
  obtain ⟨_, htail⟩ := hkey.split h heq
  exact hcolon ':' (by rw [← htail]; rfl) rfl

/-- A text that does not begin with a quote does not begin with the entry. -/
theorem not_begins_entry {c : Char} (hc : c ≠ '"') (text : List Char) :
    ¬ entryText key value <+: c :: text := by
  rintro ⟨rest, heq⟩
  exact hc (List.cons.inj heq).1.symm

/-- The entry is not found inside a literal. -/
theorem Escaped.skip_body {body tail : List Char} (h : Escaped body) (hkey : Escaped key)
    (hne : key ≠ []) (htail : Behind key tail)
    (hfound : entryText key value <:+: body ++ '"' :: tail) : entryText key value <:+: tail := by
  induction h with
  | nil =>
    rcases List.infix_cons_iff.mp hfound with ⟨rest, heq⟩ | hlater
    · -- the key would begin behind the closing quote
      cases hkey' : key with
      | nil => exact absurd hkey' hne
      | cons k key' =>
        have hhead : tail = k :: (key' ++ '"' :: ':' :: value ++ rest) := by
          rw [hkey'] at heq
          exact (List.cons.inj heq).2.symm
        exact absurd rfl (htail.2 k (by rw [hhead]; rfl) k (by rw [hkey']; rfl))
    · exact hlater
  | plain hquote _ _ ih =>
    rcases List.infix_cons_iff.mp hfound with hprefix | hlater
    · exact absurd hprefix (not_begins_entry hquote _)
    · exact ih hlater
  | @pair c text hrest ih =>
    rcases List.infix_cons_iff.mp hfound with hprefix | hlater
    · exact absurd hprefix (not_begins_entry (by decide) _)
    · rcases List.infix_cons_iff.mp hlater with ⟨rest, heq⟩ | hlast
      · -- an escaped quote: the literal would end where the key does
        have hkeyed : key ++ '"' :: ':' :: value <+: text ++ '"' :: tail :=
          ⟨rest, (List.cons.inj heq).2⟩
        exact absurd hkeyed (hkey.not_begins_key hrest htail.1)
      · exact ih hlast

theorem Escaped.skip {body tail : List Char} (h : Escaped body) (hkey : Escaped key)
    (hne : key ≠ []) (htail : Behind key tail)
    (hfound : entryText key value <:+: '"' :: body ++ ['"'] ++ tail) :
    entryText key value <:+: tail := by
  have htext : '"' :: body ++ ['"'] ++ tail = '"' :: (body ++ '"' :: tail) := by simp
  rw [htext] at hfound
  rcases List.infix_cons_iff.mp hfound with ⟨rest, heq⟩ | hlater
  · exact absurd ⟨rest, (List.cons.inj heq).2⟩ (hkey.not_begins_key h htail.1)
  · exact h.skip_body hkey hne htail hlater

/-! ### Texts without the entry -/

/-- A key that can be searched for: not empty, escaped, and not begun by what ends a value. -/
structure Searchable (key : List Char) : Prop where
  ne_nil : key ≠ []
  escaped : Escaped key
  head : ∀ c ∈ key.head?, isDelimiter c = false ∧ c ≠ ':'

/-- The search finds nothing in the text, nor across its end, where a value would end. -/
def Silent (key value text : List Char) : Prop :=
  ∀ tail, Delimited tail → entryText key value <:+: text ++ tail → entryText key value <:+: tail

/-- A character that begins no entry is passed over. -/
theorem infix_of_cons {c : Char} (hc : c ≠ '"') {tail : List Char}
    (h : entryText key value <:+: c :: tail) : entryText key value <:+: tail :=
  (List.infix_cons_iff.mp h).resolve_left (not_begins_entry hc tail)

variable (hkey : Searchable key)
include hkey

theorem Searchable.behind {tail : List Char} (h : Delimited tail) : Behind key tail := by
  constructor
  · rintro c hc rfl
    exact absurd (h ':' hc) (by decide)
  · intro c hc k hk heq
    have hdelimiter := h c hc
    rw [heq, (hkey.head k hk).1] at hdelimiter
    cases hdelimiter

theorem silent_literal {body : List Char} (h : Escaped body) :
    Silent key value ('"' :: body ++ ['"']) := by
  intro tail htail hfound
  exact h.skip hkey.escaped hkey.ne_nil (hkey.behind htail) hfound

omit hkey in
theorem silent_unquoted {text : List Char} (h : ∀ c ∈ text, c ≠ '"') : Silent key value text := by
  intro tail htail hfound
  induction text with
  | nil => exact hfound
  | cons c text ih =>
    obtain ⟨hc, htext⟩ := List.forall_mem_cons.mp h
    exact ih htext (infix_of_cons hc hfound)

theorem Atom.silent {text : List Char} (h : Atom text) : Silent key value text := by
  cases h with
  | literal hbody => exact silent_literal hkey hbody
  | word _ hword => exact silent_unquoted fun c hc => (hword c hc).1

/-- A key with which the entry does not begin is passed over, with its colon. -/
theorem Searchable.skip_key {other tail : List Char} (hplain : Plain other)
    (hapart : ¬ entryText key value <+: '"' :: other ++ '"' :: ':' :: tail)
    (hfound : entryText key value <:+: '"' :: other ++ '"' :: ':' :: tail) :
    entryText key value <:+: tail := by
  have hinside := (List.infix_cons_iff.mp hfound).resolve_left hapart
  have hclose : entryText key value <:+: '"' :: ':' :: tail := by
    clear hfound hapart
    induction other with
    | nil => exact hinside
    | cons c other ih =>
      obtain ⟨⟨hc, _⟩, hother⟩ := List.forall_mem_cons.mp hplain
      exact ih hother (infix_of_cons hc hinside)
  rcases List.infix_cons_iff.mp hclose with ⟨rest, heq⟩ | hcolon
  · -- the key of the entry would begin with the colon
    cases hkey' : key with
    | nil => exact absurd hkey' hkey.ne_nil
    | cons k key' =>
      rw [hkey'] at heq
      have hhead := hkey.head k (by rw [hkey']; rfl)
      exact absurd (List.cons.inj (List.cons.inj heq).2).1 hhead.2
  · exact infix_of_cons (by decide) hcolon

omit hkey in
theorem silent_commas {texts : List (List Char)} (h : ∀ text ∈ texts, Silent key value text) :
    Silent key value (commas texts) := by
  intro tail htail hfound
  induction texts with
  | nil => exact hfound
  | cons text texts ih =>
    obtain ⟨hfirst, hlater⟩ := List.forall_mem_cons.mp h
    cases texts with
    | nil =>
      rw [commas_singleton] at hfound
      exact hfirst tail htail hfound
    | cons next texts =>
      rw [commas_cons_cons, List.append_assoc, List.cons_append] at hfound
      have hrest := hfirst _ (delimited_cons (by decide) _) hfound
      exact ih hlater (infix_of_cons (by decide) hrest)

omit hkey in
theorem silent_bracketed {opening closing : Char} {text : List Char} (h : Silent key value text)
    (hopening : opening ≠ '"') (hclosing : isDelimiter closing = true) :
    Silent key value (opening :: text ++ [closing]) := by
  intro tail _ hfound
  have htext : opening :: text ++ [closing] ++ tail = opening :: (text ++ closing :: tail) := by
    simp
  rw [htext] at hfound
  have hquote : closing ≠ '"' := by
    rintro rfl
    exact absurd hclosing (by decide)
  have hclose := h _ (delimited_cons hclosing tail) (infix_of_cons hopening hfound)
  exact infix_of_cons hquote hclose

omit hkey in
theorem silent_array {texts : List (List Char)} (h : ∀ text ∈ texts, Silent key value text) :
    Silent key value (arrayText texts) :=
  silent_bracketed (silent_commas h) (by decide) (by decide)

/-- A field that does not begin with the entry, with nothing to be found in its text. -/
structure Field.Quiet (key value : List Char) (field : Field) : Prop where
  plain : Plain field.key
  silent : Silent key value field.text
  apart : ∀ tail, ¬ entryText key value <+: field.member ++ tail

theorem Field.Quiet.member {field : Field} (h : field.Quiet key value) :
    Silent key value field.member := by
  intro tail htail hfound
  have htext : field.member ++ tail = '"' :: field.key ++ '"' :: ':' :: (field.text ++ tail) := by
    simp [Field.member]
  have hapart := h.apart tail
  rw [htext] at hfound hapart
  exact h.silent tail htail (hkey.skip_key h.plain hapart hfound)

theorem silent_object {fields : List Field} (h : ∀ field ∈ fields, field.Quiet key value) :
    Silent key value (objectText fields) := by
  refine silent_bracketed (silent_commas ?_) (by decide) (by decide)
  rw [List.forall_mem_map]
  exact fun field hfield => (h field hfield).member hkey

omit hkey in
theorem infix_commas {text : List Char} {texts : List (List Char)} (h : text ∈ texts) :
    text <:+: commas texts := by
  induction texts with
  | nil => cases h
  | cons first texts ih =>
    cases texts with
    | nil =>
      rw [List.mem_singleton.mp h, commas_singleton]
    | cons next texts =>
      rw [commas_cons_cons]
      rcases List.mem_cons.mp h with rfl | hlater
      · exact (List.prefix_append ..).isInfix
      · exact (ih hlater).trans ((List.suffix_cons ..).trans (List.suffix_append ..)).isInfix

/-- What the member begins with when it begins with the entry. -/
theorem Searchable.split_member {field : Field} {tail : List Char} (hplain : Plain field.key)
    (h : entryText key value <+: field.member ++ tail) :
    field.key = key ∧ value <+: field.text ++ tail := by
  obtain ⟨rest, heq⟩ := h
  have hbodies : key ++ '"' :: (':' :: (value ++ rest)) =
      field.key ++ '"' :: (':' :: (field.text ++ tail)) := by
    simpa [entryText, Field.member] using heq
  have hescaped : Escaped field.key :=
    escaped_of_plain fun c hc => ⟨(hplain c hc).1, (hplain c hc).2.1⟩
  obtain ⟨hkeys, htails⟩ := hkey.escaped.split hescaped hbodies
  exact ⟨hkeys.symm, rest, (List.cons.inj htails).2⟩

/-- A field under another key. -/
theorem quiet_of_key_ne {field : Field} (hplain : Plain field.key) (hne : field.key ≠ key)
    (hsilent : Silent key value field.text) : field.Quiet key value :=
  ⟨hplain, hsilent, fun _ h => hne (hkey.split_member hplain h).1⟩

/-- In an object where no other field has anything to be found in it, the entry is found
exactly when it is that of the field under its key. -/
theorem infix_object_iff {before after : List Field} {body sought : List Char}
    {outcome : Option Value} (hplain : Plain key) (hbody : Escaped body) (hsought : Escaped sought)
    (hbefore : ∀ field ∈ before, field.Quiet key ('"' :: sought ++ ['"']))
    (hafter : ∀ field ∈ after, field.Quiet key ('"' :: sought ++ ['"'])) :
    entryText key ('"' :: sought ++ ['"']) <:+:
        objectText (before ++ ⟨key, '"' :: body ++ ['"'], outcome⟩ :: after) ↔ body = sought := by
  constructor
  · intro hfound
    by_contra hne
    have hfield : (⟨key, '"' :: body ++ ['"'], outcome⟩ : Field).Quiet key
        ('"' :: sought ++ ['"']) := by
      refine ⟨hplain, silent_literal hkey hbody, ?_⟩
      intro tail h
      obtain ⟨_, rest, heq⟩ := hkey.split_member hplain h
      have hbodies : sought ++ '"' :: rest = body ++ '"' :: tail := by simpa using heq
      exact hne (hsought.split hbody hbodies).1.symm
    have hall : ∀ field ∈ before ++ ⟨key, '"' :: body ++ ['"'], outcome⟩ :: after,
        field.Quiet key ('"' :: sought ++ ['"']) := by
      rw [List.forall_mem_append, List.forall_mem_cons]
      exact ⟨hbefore, hfield, hafter⟩
    have hnothing := silent_object hkey hall [] delimited_nil (by rwa [List.append_nil])
    rw [List.infix_nil] at hnothing
    cases hnothing
  · intro heq
    subst heq
    have hmember : entryText key ('"' :: body ++ ['"']) <:+:
        commas ((before ++ ⟨key, '"' :: body ++ ['"'], outcome⟩ :: after).map Field.member) :=
      infix_commas (List.mem_map.mpr ⟨_, List.mem_append_right _ List.mem_cons_self, rfl⟩)
    exact hmember.trans ⟨['\x7b'], ['\x7d'], rfl⟩

end Search

end Json
