import Mathlib.Data.List.Infix

/-!
# Substring search

`find` of `std::string`, as what it leaves: the texts before and behind the first
occurrence of a pattern. `cut_eq_some` says that they make up the text, `cut_first` that
no occurrence starts earlier, and `cut_eq_none` that there is none otherwise.
-/

namespace Search

variable {α : Type} [DecidableEq α]

/-- The texts before and behind the first occurrence of `pattern`. -/
def cut (pattern : List α) : List α → Option (List α × List α)
  | [] => if pattern = [] then some ([], []) else none
  | a :: text =>
    if pattern <+: a :: text then some ([], (a :: text).drop pattern.length)
    else (cut pattern text).map fun parts => (a :: parts.1, parts.2)

/-- The text behind the first occurrence of `pattern`. -/
def afterFirst (pattern text : List α) : Option (List α) := (cut pattern text).map Prod.snd

/-- Whether `pattern` occurs in the text. -/
def occurs (pattern text : List α) : Bool := pattern <:+: text

theorem cut_eq_some {pattern text before behind : List α}
    (h : cut pattern text = some (before, behind)) : text = before ++ pattern ++ behind := by
  induction text generalizing before with
  | nil =>
    rw [cut] at h
    split at h
    · rename_i hpattern
      cases h
      simp [hpattern]
    · cases h
  | cons a text ih =>
    rw [cut] at h
    split at h
    · rename_i hpattern
      cases h
      exact (List.prefix_iff_eq_append.mp hpattern).symm
    · obtain ⟨parts, hparts, heq⟩ := Option.map_eq_some_iff.mp h
      cases heq
      rw [ih hparts]
      simp

theorem cut_first {pattern text before behind before' behind' : List α}
    (h : cut pattern text = some (before, behind))
    (h' : text = before' ++ pattern ++ behind') : before.length ≤ before'.length := by
  induction text generalizing before before' with
  | nil =>
    rw [cut] at h
    split at h
    · cases h
      simp
    · cases h
  | cons a text ih =>
    rw [cut] at h
    split at h
    · cases h
      simp
    · rename_i hpattern
      obtain ⟨parts, hparts, heq⟩ := Option.map_eq_some_iff.mp h
      cases heq
      cases before' with
      | nil => exact absurd ⟨behind', h'.symm⟩ hpattern
      | cons b before' =>
        have htail : text = before' ++ pattern ++ behind' := (List.cons.inj h').2
        exact Nat.succ_le_succ (ih hparts htail)

theorem cut_eq_none {pattern text : List α} : cut pattern text = none ↔ ¬ pattern <:+: text := by
  induction text with
  | nil =>
    rw [cut]
    split <;> simp [*]
  | cons a text ih =>
    rw [cut, List.infix_cons_iff]
    split
    · rename_i hpattern
      simp [hpattern]
    · rename_i hpattern
      rw [Option.map_eq_none_iff, ih]
      simp [hpattern]

/-! ## Searching a concatenation -/

/-- No proper part of the pattern is both its start and its end, so that two occurrences
never overlap. -/
def Unbordered (pattern : List α) : Prop :=
  ∀ part ∈ pattern.inits, part <:+ pattern → part = [] ∨ part = pattern

instance (pattern : List α) : Decidable (Unbordered pattern) :=
  inferInstanceAs (Decidable (∀ part ∈ pattern.inits, _))

/-- An occurrence is found again when more text follows. -/
theorem cut_append {pattern text before behind : List α} (more : List α)
    (h : cut pattern text = some (before, behind)) :
    cut pattern (text ++ more) = some (before, behind ++ more) := by
  induction text generalizing before with
  | nil =>
    rw [cut] at h
    split at h
    · rename_i hpattern
      cases h
      cases more <;> simp [cut, hpattern]
    · cases h
  | cons a text ih =>
    rw [cut] at h
    rw [List.cons_append, cut]
    split at h
    · rename_i hpattern
      cases h
      have hmore : pattern <+: a :: (text ++ more) := hpattern.trans ⟨more, rfl⟩
      rw [if_pos hmore, ← List.cons_append,
        List.drop_append_of_le_length hpattern.length_le]
    · rename_i hpattern
      obtain ⟨parts, hparts, heq⟩ := Option.map_eq_some_iff.mp h
      cases heq
      have hmore : ¬ pattern <+: a :: (text ++ more) := by
        intro hstarts
        -- a whole occurrence lies behind, so the text is long enough for this one
        have hlong : pattern.length ≤ (a :: text).length := by
          rw [List.length_cons, cut_eq_some hparts, List.length_append, List.length_append]
          omega
        exact hpattern (List.prefix_of_prefix_length_le hstarts ⟨more, rfl⟩ hlong)
      rw [if_neg hmore, ih hparts]
      rfl

/-- Behind a text without the pattern, the pattern itself is its first occurrence. -/
theorem cut_of_not_occurs {pattern text : List α} (hpattern : Unbordered pattern)
    (hne : pattern ≠ []) (h : ¬ pattern <:+: text) (more : List α) :
    cut pattern (text ++ (pattern ++ more)) = some (text, more) := by
  induction text with
  | nil =>
    cases hpattern' : pattern with
    | nil => exact absurd hpattern' hne
    | cons a rest =>
      rw [List.nil_append, List.cons_append, cut, if_pos ⟨more, rfl⟩, ← List.cons_append,
        List.drop_left]
  | cons a text ih =>
    rw [List.infix_cons_iff, not_or] at h
    have hstarts : ¬ pattern <+: a :: (text ++ (pattern ++ more)) := by
      intro hstarts
      rcases List.prefix_or_prefix_of_prefix hstarts (List.prefix_append (a :: text) _) with
        hshort | ⟨part, hpart⟩
      · exact h.1 hshort
      · -- the pattern goes on where the text ends: with a start of itself
        have hgoes : (a :: text) ++ part <+: (a :: text) ++ (pattern ++ more) := by
          rw [hpart]
          exact hstarts
        have hlength : pattern.length = (a :: text).length + part.length := by
          rw [← hpart, List.length_append]
        have hinit : part <+: pattern := List.prefix_of_prefix_length_le
          ((List.prefix_append_right_inj _).mp hgoes) (List.prefix_append ..) (by omega)
        rcases hpattern part (List.mem_inits _ _ |>.mpr hinit) ⟨_, hpart⟩ with hnil | hwhole
        · rw [hnil, List.append_nil] at hpart
          exact h.1 (hpart ▸ List.prefix_rfl)
        · rw [hwhole, List.length_cons] at hlength
          omega
    rw [List.cons_append, cut, if_neg hstarts, ih h.2]
    rfl

/-- Behind an occurrence at the start the next one starts where the first has ended. -/
theorem infix_tail_append {pattern text : List α} (hpattern : Unbordered pattern)
    (h : pattern <:+: (pattern ++ text).tail) : pattern <:+: text := by
  cases hcons : pattern with
  | nil => exact List.nil_infix
  | cons a rest =>
    obtain ⟨before, behind, hoccurs⟩ := h
    rw [hcons, List.cons_append, List.tail_cons, ← hcons, List.append_assoc,
      List.append_eq_append_iff] at hoccurs
    rw [← hcons]
    rcases hoccurs with ⟨part, hrest, hgoes⟩ | ⟨later, _, htext⟩
    · -- the second occurrence starts with an end of the first
      have hlength : pattern.length = before.length + part.length + 1 := by
        rw [hcons, hrest, List.length_cons, List.length_append]
      have hstart : part <+: pattern := List.prefix_of_prefix_length_le
        (List.prefix_append part text) (hgoes ▸ List.prefix_append pattern behind) (by omega)
      have hend : part <:+ pattern := ⟨a :: before, by rw [hcons, hrest, List.cons_append]⟩
      rcases hpattern part ((List.mem_inits _ _).mpr hstart) hend with hnil | hwhole
      · rw [hnil, List.nil_append] at hgoes
        exact ⟨[], behind, by rw [List.nil_append, hgoes]⟩
      · have hsame := congrArg List.length hwhole
        omega
    · exact ⟨later, behind, by rw [htext, List.append_assoc]⟩

/-- A pattern without the delimiter is found in front of it or behind it. -/
theorem cut_append_delimiter {pattern before : List α} {delimiter : α}
    (hdelimiter : delimiter ∉ pattern) (h : ¬ pattern <:+: before) (behind : List α) :
    cut pattern (before ++ delimiter :: behind) =
      (cut pattern behind).map fun parts => (before ++ delimiter :: parts.1, parts.2) := by
  have hshort : ∀ front, pattern <+: front ++ delimiter :: behind → pattern <+: front := by
    intro front hstarts
    rcases List.prefix_or_prefix_of_prefix hstarts (List.prefix_append front _) with
      hfront | ⟨part, hpart⟩
    · exact hfront
    · cases part with
      | nil => exact ⟨[], by rw [← hpart, List.append_nil, List.append_nil]⟩
      | cons b part =>
        rw [← hpart] at hstarts
        have hb := List.prefix_append_right_inj _ |>.mp hstarts
        obtain rfl := (List.cons_prefix_cons.mp hb).1
        refine absurd ?_ hdelimiter
        rw [← hpart]
        exact List.mem_append_right _ List.mem_cons_self
  induction before with
  | nil =>
    have hstarts : ¬ pattern <+: delimiter :: behind := by
      intro hstarts
      exact h (hshort [] hstarts).isInfix
    rw [List.nil_append, cut, if_neg hstarts]
    rfl
  | cons a before ih =>
    rw [List.infix_cons_iff, not_or] at h
    have hstarts : ¬ pattern <+: a :: (before ++ delimiter :: behind) := by
      intro hstarts
      exact h.1 (hshort (a :: before) hstarts)
    rw [List.cons_append, cut, if_neg hstarts, ih h.2, Option.map_map]
    rfl

/-! ## The first occurrence of a delimiter -/

theorem takeWhile_ne_append {a : α} {text rest : List α} (h : a ∉ text)
    (hrest : ∀ b ∈ rest.head?, b = a) : (text ++ rest).takeWhile (· ≠ a) = text := by
  rw [List.takeWhile_append_of_pos]
  · cases rest with
    | nil => simp
    | cons b rest =>
      have hb : b = a := hrest b rfl
      simp [hb]
  · intro b hb
    have hne : b ≠ a := fun heq => h (heq ▸ hb)
    simpa using hne

theorem dropWhile_ne_append {a : α} {text rest : List α} (h : a ∉ text)
    (hrest : ∀ b ∈ rest.head?, b = a) : (text ++ rest).dropWhile (· ≠ a) = rest := by
  have hboth := List.takeWhile_append_dropWhile (p := fun b => decide (b ≠ a)) (l := text ++ rest)
  rw [takeWhile_ne_append h hrest] at hboth
  exact List.append_cancel_left hboth

/-- A text is split at its first delimiter in one way. -/
theorem append_delimiter_inj {a : α} {text text' rest rest' : List α} (h : a ∉ text)
    (h' : a ∉ text') (heq : text ++ a :: rest = text' ++ a :: rest') :
    text = text' ∧ rest = rest' := by
  have htexts := congrArg (List.takeWhile (· ≠ a)) heq
  have hrests := congrArg (List.dropWhile (· ≠ a)) heq
  rw [takeWhile_ne_append h (by simp), takeWhile_ne_append h' (by simp)] at htexts
  rw [dropWhile_ne_append h (by simp), dropWhile_ne_append h' (by simp)] at hrests
  exact ⟨htexts, (List.cons.inj hrests).2⟩

/-! ## The first and the last element with a property -/

omit [DecidableEq α] in
theorem exists_first {p : α → Bool} {l : List α} (h : ∃ a ∈ l, p a = true) :
    ∃ before a after, l = before ++ a :: after ∧ p a = true ∧ ∀ b ∈ before, p b = false := by
  cases hfind : l.find? p with
  | none =>
    obtain ⟨a, hmem, ha⟩ := h
    exact absurd ha (by simpa using List.find?_eq_none.mp hfind a hmem)
  | some a =>
    obtain ⟨ha, before, after, hl, hbefore⟩ := List.find?_eq_some_iff_append.mp hfind
    exact ⟨before, a, after, hl, ha, fun b hb => by simpa using hbefore b hb⟩

omit [DecidableEq α] in
theorem exists_last {p : α → Bool} {l : List α} (h : ∃ a ∈ l, p a = true) :
    ∃ before a after, l = before ++ a :: after ∧ p a = true ∧ ∀ b ∈ after, p b = false := by
  obtain ⟨after, a, before, hl, ha, hafter⟩ := @exists_first _ p l.reverse (by simpa using h)
  refine ⟨before.reverse, a, after.reverse, ?_, ha, fun b hb => hafter b (List.mem_reverse.mp hb)⟩
  have hreverse := congrArg List.reverse hl
  simpa using hreverse

end Search
