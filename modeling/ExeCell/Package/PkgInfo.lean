import ExeCell.Package.Inspect

/-!
# The lines of `.PKGINFO`

`value` and `values` look for a key and ` = ` anywhere in the text. What they find is what
the lines say that begin so, exactly when no line has the label further inside
(`lineExact_iff`).
-/

namespace ExeCell.Package

/-- The keys that `inspect` asks for. -/
def inspectKeys : List Text :=
  ["pkgname".toList, "pkgver".toList, "arch".toList, "depend".toList]

/-- What `value` and `values` search for. -/
def labelOf (key : Text) : Text := key ++ " = ".toList

/-- What a line says for a label. -/
def lineValue (label line : Text) : List Text :=
  if label <+: line then [line.drop label.length] else []

/-- What the lines of a text say for a label. -/
def lineValues (label text : Text) : List Text :=
  (text.splitOn '\n').flatMap (lineValue label)

/-- `values` gives what the lines say that begin with the key, and `value` the first of it. -/
structure LineExact (text key : Text) : Prop where
  all : values text key = lineValues (labelOf key) text
  first : value text key = (lineValues (labelOf key) text).headD []

/-- A label is found within one line, and never overlaps itself. -/
structure Label (label : Text) : Prop where
  unbordered : Search.Unbordered label
  inline : '\n' ∉ label
  nonempty : label ≠ []

theorem label_of_inspectKeys {key : Text} (h : key ∈ inspectKeys) : Label (labelOf key) := by
  have hall : ∀ key ∈ inspectKeys, Search.Unbordered (labelOf key) ∧
      '\n' ∉ labelOf key ∧ labelOf key ≠ [] := by decide
  obtain ⟨hunbordered, hinline, hnonempty⟩ := hall key h
  exact ⟨hunbordered, hinline, hnonempty⟩

section

variable {label text line rest before : Text}

/-! ## The loop of `values` -/

/-- What the loop finds when it has fuel enough. -/
def found (label text : Text) : List Text := valuesLoop label text.length text

theorem length_of_cut (hne : label ≠ []) (h : Search.cut label text = some (before, rest)) :
    rest.length < text.length := by
  have hpos := List.length_pos_iff.mpr hne
  rw [Search.cut_eq_some h, List.length_append, List.length_append]
  omega

theorem valuesLoop_of_none (fuel : Nat) (h : Search.cut label text = none) :
    valuesLoop label fuel text = [] := by
  cases fuel with
  | zero => rfl
  | succ fuel => rw [valuesLoop, Search.afterFirst, h, Option.map_none]

/-- Any fuel from the length of the text on is enough. -/
theorem valuesLoop_eq (hne : label ≠ []) {fuel fuel' : Nat} (hfuel : text.length ≤ fuel)
    (hfuel' : text.length ≤ fuel') :
    valuesLoop label fuel text = valuesLoop label fuel' text := by
  induction fuel generalizing text fuel' with
  | zero =>
    have hnone : Search.cut label text = none := by
      rw [List.length_eq_zero_iff.mp (Nat.le_zero.mp hfuel), Search.cut, if_neg hne]
    rw [valuesLoop_of_none _ hnone, valuesLoop_of_none _ hnone]
  | succ fuel ih =>
    cases hcut : Search.cut label text with
    | none => rw [valuesLoop_of_none _ hcut, valuesLoop_of_none _ hcut]
    | some parts =>
      have hshort := length_of_cut hne hcut
      obtain ⟨fuel', rfl⟩ : ∃ less, fuel' = less + 1 := ⟨fuel' - 1, by omega⟩
      have hrest := @ih parts.2 fuel' (by omega) (by omega)
      rw [valuesLoop, valuesLoop, Search.afterFirst, hcut, Option.map_some]
      dsimp only
      rw [hrest]

theorem found_of_none (h : Search.cut label text = none) : found label text = [] :=
  valuesLoop_of_none _ h

theorem found_of_cut (hne : label ≠ []) (h : Search.cut label text = some (before, rest)) :
    found label text = rest.takeWhile (· ≠ '\n') :: found label rest := by
  have hshort := length_of_cut hne h
  have hloop := valuesLoop_eq hne (le_refl text.length) (Nat.le_succ text.length)
  have hrest := valuesLoop_eq hne hshort.le (le_refl rest.length)
  rw [found, hloop, valuesLoop, Search.afterFirst, h, Option.map_some]
  dsimp only
  rw [hrest, found]

theorem found_eq_nil_iff (hne : label ≠ []) : found label text = [] ↔ ¬ label <:+: text := by
  rw [← Search.cut_eq_none]
  cases hcut : Search.cut label text with
  | none => exact iff_of_true (found_of_none hcut) rfl
  | some parts =>
    rw [found_of_cut hne hcut]
    simp

theorem values_eq (text key : Text) : values text key = found (labelOf key) text := rfl

theorem value_eq {key : Text} (hne : labelOf key ≠ []) (text : Text) :
    value text key = (values text key).headD [] := by
  rw [values_eq, value, ← labelOf]
  cases hcut : Search.cut (labelOf key) text with
  | none =>
    rw [found_of_none hcut, Search.afterFirst, hcut]
    rfl
  | some parts =>
    rw [found_of_cut hne hcut, Search.afterFirst, hcut]
    rfl

/-! ## Line by line -/

theorem takeWhile_line (h : '\n' ∉ line) : line.takeWhile (· ≠ '\n') = line := by
  have halone := @Search.takeWhile_ne_append _ _ _ _ [] h (by simp)
  rwa [List.append_nil] at halone

/-- What is found in a line does not depend on what follows it. -/
theorem found_append (hlabel : Label label) (hline : '\n' ∉ line) (rest : Text) :
    found label (line ++ '\n' :: rest) = found label line ++ found label rest := by
  induction hn : line.length using Nat.strongRecOn generalizing line with
  | ind length ih =>
    cases hcut : Search.cut label line with
    | none =>
      have hdelimiter := Search.cut_append_delimiter hlabel.inline (Search.cut_eq_none.mp hcut) rest
      rw [found_of_none hcut, List.nil_append]
      cases hrest : Search.cut label rest with
      | none =>
        rw [hrest, Option.map_none] at hdelimiter
        rw [found_of_none hdelimiter, found_of_none hrest]
      | some parts =>
        rw [hrest, Option.map_some] at hdelimiter
        rw [found_of_cut hlabel.nonempty hdelimiter, found_of_cut hlabel.nonempty hrest]
    | some parts =>
      obtain ⟨before, behind⟩ := parts
      have hshort := length_of_cut hlabel.nonempty hcut
      have hbehind : '\n' ∉ behind := by
        intro hmem
        rw [Search.cut_eq_some hcut] at hline
        exact hline (List.mem_append_right _ hmem)
      rw [found_of_cut hlabel.nonempty (Search.cut_append ('\n' :: rest) hcut),
        found_of_cut hlabel.nonempty hcut, Search.takeWhile_ne_append hbehind (by simp),
        takeWhile_line hbehind, ih behind.length (by omega) hbehind rfl, List.cons_append]

theorem splitOn_newline_cases (text : Text) :
    ('\n' ∉ text ∧ text.splitOn '\n' = [text]) ∨
      ∃ line rest, text = line ++ '\n' :: rest ∧ '\n' ∉ line ∧
        text.splitOn '\n' = line :: rest.splitOn '\n' := by
  by_cases hmem : '\n' ∈ text
  · obtain ⟨line, rest, htext, hline⟩ := List.eq_append_cons_of_mem hmem
    refine .inr ⟨line, rest, htext, hline, ?_⟩
    rw [htext, List.splitOn_append_cons_self_of_not_mem hline]
  · exact .inl ⟨hmem, List.splitOn_eq_singleton hmem⟩

/-- The loop goes through the text line by line. -/
theorem found_eq_flatMap (hlabel : Label label) (text : Text) :
    found label text = (text.splitOn '\n').flatMap (found label) := by
  induction hn : text.length using Nat.strongRecOn generalizing text with
  | ind length ih =>
    rcases splitOn_newline_cases text with ⟨_, hsplit⟩ | ⟨line, rest, htext, hline, hsplit⟩
    · rw [hsplit, List.flatMap_singleton]
    · have hshort : rest.length < length := by
        rw [← hn, htext, List.length_append, List.length_cons]
        omega
      rw [hsplit, List.flatMap_cons, htext, found_append hlabel hline, ih _ hshort rest rfl]

theorem newline_not_mem_line (h : line ∈ text.splitOn '\n') : '\n' ∉ line := by
  induction hn : text.length using Nat.strongRecOn generalizing text with
  | ind length ih =>
    rcases splitOn_newline_cases text with ⟨hwhole, hsplit⟩ | ⟨first, rest, htext, hfirst, hsplit⟩
    · rw [hsplit, List.mem_singleton] at h
      rwa [h]
    · have hshort : rest.length < length := by
        rw [← hn, htext, List.length_append, List.length_cons]
        omega
      rw [hsplit] at h
      rcases List.mem_cons.mp h with rfl | hrest
      · exact hfirst
      · exact ih _ hshort hrest rfl

/-- What a line gives: what it says and, behind it, all that is found further inside. -/
theorem found_line (hlabel : Label label) (hline : '\n' ∉ line) :
    ∃ more, found label line = lineValue label line ++ more ∧
      (more = [] ↔ ¬ label <:+: line.tail) := by
  by_cases hstart : label <+: line
  · obtain ⟨behind, rfl⟩ := hstart
    have hbehind : '\n' ∉ behind := fun hmem => hline (List.mem_append_right _ hmem)
    have hcut : Search.cut label (label ++ behind) = some ([], behind) := by
      have hnil : ¬ label <:+: [] := fun h => hlabel.nonempty (List.infix_nil.mp h)
      exact Search.cut_of_not_occurs hlabel.unbordered hlabel.nonempty hnil behind
    refine ⟨found label behind, ?_, ?_⟩
    · rw [found_of_cut hlabel.nonempty hcut, takeWhile_line hbehind, lineValue,
        if_pos ⟨behind, rfl⟩, List.drop_left]
      rfl
    · rw [found_eq_nil_iff hlabel.nonempty, not_iff_not]
      refine ⟨fun hinside => ?_, Search.infix_tail_append hlabel.unbordered⟩
      rw [List.tail_append_of_ne_nil hlabel.nonempty]
      exact hinside.trans (List.suffix_append _ _).isInfix
  · refine ⟨found label line, ?_, ?_⟩
    · rw [lineValue, if_neg hstart, List.nil_append]
    · rw [found_eq_nil_iff hlabel.nonempty, not_iff_not]
      cases line with
      | nil => rfl
      | cons a line => rw [List.infix_cons_iff, or_iff_right hstart, List.tail_cons]

theorem length_lineValues_le (hlabel : Label label) {lines : List Text}
    (hinline : ∀ line ∈ lines, '\n' ∉ line) :
    (lines.flatMap (lineValue label)).length ≤ (lines.flatMap (found label)).length := by
  induction lines with
  | nil => exact le_rfl
  | cons line lines ih =>
    rw [List.forall_mem_cons] at hinline
    obtain ⟨more, hfound, _⟩ := found_line hlabel hinline.1
    have hrest := ih hinline.2
    rw [List.flatMap_cons, List.flatMap_cons, hfound, List.length_append, List.length_append,
      List.length_append]
    omega

/-- The loop finds what the lines say, unless one of them has the label further inside. -/
theorem found_eq_lineValues_iff (hlabel : Label label) (text : Text) :
    found label text = lineValues label text ↔
      ∀ line ∈ text.splitOn '\n', ¬ label <:+: line.tail := by
  have hinline : ∀ line ∈ text.splitOn '\n', '\n' ∉ line := fun _ => newline_not_mem_line
  rw [found_eq_flatMap hlabel, lineValues]
  generalize text.splitOn '\n' = lines at hinline
  induction lines with
  | nil => simp
  | cons line lines ih =>
    rw [List.forall_mem_cons] at hinline ⊢
    obtain ⟨more, hfound, hmore⟩ := found_line hlabel hinline.1
    have hlonger := length_lineValues_le hlabel hinline.2
    rw [List.flatMap_cons, List.flatMap_cons, hfound]
    refine Iff.trans ?_ (and_congr hmore (ih hinline.2))
    constructor
    · intro heq
      have hlength := congrArg List.length heq
      rw [List.length_append, List.length_append, List.length_append] at hlength
      have hnil : more = [] := List.length_eq_zero_iff.mp (by omega)
      rw [hnil, List.append_nil] at heq
      exact ⟨hnil, List.append_cancel_left heq⟩
    · rintro ⟨rfl, hrest⟩
      rw [List.append_nil, hrest]

theorem lineExact_iff {key : Text} (hkey : key ∈ inspectKeys) :
    LineExact text key ↔ ∀ line ∈ text.splitOn '\n', ¬ labelOf key <:+: line.tail := by
  have hlabel := label_of_inspectKeys hkey
  rw [← found_eq_lineValues_iff hlabel, ← values_eq]
  constructor
  · exact fun h => h.all
  · intro hall
    refine ⟨hall, ?_⟩
    rw [value_eq hlabel.nonempty, hall]

/-- A description can name the package. -/
theorem not_lineExact_description :
    ¬LineExact "pkgdesc = see pkgname = evil\npkgname = tool\n".toList "pkgname".toList := by
  intro h
  exact absurd h.first (by decide)

theorem lineExact_tool :
    LineExact "pkgname = tool\npkgver = 1.0-1\ndepend = a\ndepend = b\n".toList
      "depend".toList :=
  (lineExact_iff (by decide)).mpr (by decide)

end

end ExeCell.Package
