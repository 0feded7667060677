import Mathlib.Data.List.Infix
import Mathlib.Data.List.TakeWhile

/-!
# Words

The words of a text, as the extraction operator of an input stream reads them: the longest runs
of characters that are no breaks. A text is read from its front, one break (`split_cons`), one
run of breaks (`split_append`) or one word (`split_word_append`) at a time.

Words by their beginnings: a list of names stands for all words that begin with one of them.
Which lists stand for more can be read off the names (`forall_begun_iff`): every name of the one
must itself begin with a name of the other. Only the empty name, which every word begins with,
asks for more.
-/

namespace Words

variable {α : Type} {isBreak : α → Bool} {c : α} {text gap word rest : List α}

def split (isBreak : α → Bool) (text : List α) : List (List α) :=
  (text.splitOnP isBreak).filter fun word => !word.isEmpty

@[simp] theorem split_nil : split isBreak [] = [] := by
  rw [split, List.splitOnP_nil]
  rfl

theorem split_cons (h : isBreak c = true) : split isBreak (c :: rest) = split isBreak rest := by
  rw [split, List.splitOnP_cons_eq_if_modifyHead, if_pos h]
  rfl

theorem split_append (h : ∀ c ∈ gap, isBreak c = true) :
    split isBreak (gap ++ rest) = split isBreak rest := by
  induction gap with
  | nil => rfl
  | cons c gap ih =>
    rw [List.forall_mem_cons] at h
    rw [List.cons_append, split_cons h.1, ih h.2]

/-- A word reaches to the end of the text or to the next break. -/
theorem split_word_append (hne : word ≠ []) (hword : ∀ c ∈ word, isBreak c = false)
    (hrest : ∀ c ∈ rest.head?, isBreak c = true) :
    split isBreak (word ++ rest) = word :: split isBreak rest := by
  have hkept : (!word.isEmpty) = true := by simpa using hne
  cases rest with
  | nil =>
    rw [List.append_nil, split, List.splitOnP_eq_singleton hword, List.filter_cons, if_pos hkept]
    rfl
  | cons c rest =>
    have hbreak : isBreak c = true := hrest c rfl
    rw [split_cons hbreak, split, List.splitOnP_append_cons_of_forall_mem hword c hbreak,
      List.filter_cons, if_pos hkept, split]

theorem split_eq_nil_iff : split isBreak text = [] ↔ ∀ c ∈ text, isBreak c = true := by
  constructor
  · intro h
    -- the first character that is no break would start a word
    by_contra hsome
    have hrest : text.dropWhile isBreak ≠ [] := by
      rw [ne_eq, List.dropWhile_eq_nil_iff]
      exact hsome
    obtain ⟨c, rest, hdrop⟩ := List.exists_cons_of_ne_nil hrest
    have hletter : isBreak c = false := by
      have hhead := List.head_dropWhile_not isBreak hrest
      simpa [hdrop] using hhead
    rw [← List.takeWhile_append_dropWhile (p := isBreak) (l := text),
      split_append fun _ hmem => List.mem_takeWhile_imp hmem, hdrop, split] at h
    rw [List.splitOnP_cons_eq_if_modifyHead, if_neg (by simp [hletter])] at h
    obtain ⟨first, pieces, hpieces⟩ := List.exists_cons_of_ne_nil
      (List.splitOnP_ne_nil isBreak rest)
    rw [hpieces, List.modifyHead_cons, List.filter_cons] at h
    simp at h
  · intro h
    rw [← List.append_nil text, split_append h, split_nil]

theorem ne_nil_of_mem_split (h : word ∈ split isBreak text) : word ≠ [] := by
  have hkept := (List.mem_filter.mp h).2
  simpa using hkept

/-- Breaks may be replaced by other breaks beforehand. -/
theorem split_map {isBreak' : α → Bool} {f : α → α} (h : ∀ c, isBreak (f c) = isBreak' c)
    (hf : ∀ c, isBreak' c = false → f c = c) :
    split isBreak (text.map f) = split isBreak' text := by
  have hpieces : (text.map f).splitOnP isBreak = text.splitOnP isBreak' := by
    induction text with
    | nil => rfl
    | cons c text ih =>
      rw [List.map_cons, List.splitOnP_cons_eq_if_modifyHead, List.splitOnP_cons_eq_if_modifyHead,
        ih, h]
      split
      · rfl
      · rename_i hletter
        rw [hf c (by simpa using hletter)]
  rw [split, hpieces, split]

end Words

namespace Prefixes

variable {α : Type} {names names' : List (List α)} {word : List α}

/-- The word begins with one of the names. -/
def Begun (names : List (List α)) (word : List α) : Prop := ∃ name ∈ names, name <+: word

theorem begun_of_nil_mem (h : [] ∈ names) : Begun names word := ⟨[], h, List.nil_prefix⟩

theorem begun_nil_iff : Begun names [] ↔ [] ∈ names := by
  constructor
  · intro h
    obtain ⟨name, hmem, hbegins⟩ := h
    rw [List.prefix_nil.mp hbegins] at hmem
    exact hmem
  · exact begun_of_nil_mem

theorem begun_append_iff : Begun (names ++ names') word ↔ Begun names word ∨ Begun names' word := by
  simp only [Begun, List.mem_append, or_and_right, exists_or]

/-- What begins with a word that has a name has this name too. -/
theorem Begun.mono {longer : List α} (h : Begun names word) (hbegins : word <+: longer) :
    Begun names longer := by
  obtain ⟨name, hmem, hname⟩ := h
  exact ⟨name, hmem, hname.trans hbegins⟩

/-- Every word but the empty one that has a name among the first has one among the second. -/
theorem forall_begun_iff :
    (∀ word, word ≠ [] → Begun names word → Begun names' word) ↔
      (∀ name ∈ names, name ≠ [] → Begun names' name) ∧ ([] ∈ names → ∀ a, Begun names' [a]) := by
  constructor
  · intro h
    refine ⟨?_, ?_⟩
    · intro name hmem hne
      exact h name hne ⟨name, hmem, List.prefix_rfl⟩
    · intro hnil a
      exact h [a] (List.cons_ne_nil _ _) (begun_of_nil_mem hnil)
  · intro h word hne hbegun
    obtain ⟨hnames, hnil⟩ := h
    obtain ⟨name, hmem, hbegins⟩ := hbegun
    by_cases hempty : name = []
    · subst hempty
      obtain ⟨a, rest, rfl⟩ := List.exists_cons_of_ne_nil hne
      exact (hnil hmem a).mono ⟨rest, rfl⟩
    · exact (hnames name hmem hempty).mono hbegins

end Prefixes
