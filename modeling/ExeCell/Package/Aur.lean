import ExeCell.Core.Text
import ExeCell.Lib.Search
import ExeCell.Lib.Words

/-!
# Reading a PKGBUILD

`aur::parse` takes the values of a few variables out of the text of a PKGBUILD. It looks
at one line: the first that begins with the name of the variable and `=`. The words of an
array are what this line has besides quotes and parentheses.

An array may go on over further lines, and something else may follow it on its last one.
`parse_sources_iff` says for which layouts of the two arrays the sources come out as they
are written.
-/

namespace ExeCell.Package.Aur

/-! ## The parser -/

structure Source where
  value : Text
  hash : Text
  deriving DecidableEq, Repr

structure Manifest where
  name : Text := []
  version : Text := []
  release : Text := []
  architectures : List Text := []
  sources : List Source := []
  phases : List Text := []
  findings : List Text := []
  deriving DecidableEq, Repr

/-- What the parser skips at the start of a line. -/
def isBlank (c : Char) : Bool := c = ' ' || c = '\t'

/-- Remove the quotes around a whole line. -/
def unquote (line : Text) : Text :=
  if line.length ≥ 2 ∧ ((line.head? = some '\'' ∧ line.getLast? = some '\'') ∨
      (line.head? = some '"' ∧ line.getLast? = some '"')) then
    (line.drop 1).take (line.length - 2)
  else line

def label (key : Text) : Text := key ++ ['=']

/-- The value that a line assigns behind the label. -/
def lineValue (rest : Text) : Text := unquote (rest.dropWhile isBlank)

/-- The loop of `assignment`, from the start of a line on. The fuel is the length of the
text. -/
def assignmentLoop (key : Text) : Nat → Text → Text
  | 0, _ => []
  | fuel + 1, text =>
    if text = [] then []
    else
      let line := (text.takeWhile (· ≠ '\n')).dropWhile isBlank
      if label key <+: line then lineValue (line.drop (label key).length)
      else
        match text.dropWhile (· ≠ '\n') with
        | [] => []
        | _ :: next => assignmentLoop key fuel next

def assignment (text key : Text) : Text := assignmentLoop key text.length text

/-- `isspace`. -/
def isSpace (c : Char) : Bool :=
  c = ' ' || c = '\t' || c = '\n' || c = '\x0b' || c = '\x0c' || c = '\r'

/-- What `words` replaces by a space. -/
def isBracket (c : Char) : Bool := c = '(' || c = ')' || c = '"' || c = '\''

def words (value : Text) : List Text :=
  Words.split isSpace (value.map fun c => if isBracket c then ' ' else c)

/-- The file that `parse` is called with. -/
structure Pkgbuild where
  regularFile : Bool := true
  /-- What `file_size` returns. -/
  size : Nat
  opens : Bool := true
  text : Text
  deriving DecidableEq, Repr

def sourcesOf (sourceWords hashWords : List Text) : List Source :=
  sourceWords.mapIdx fun index word => { value := word, hash := hashWords[index]?.getD [] }

def phaseNames : List Text :=
  ["prepare".toList, "build".toList, "check".toList, "package".toList, "pkgver".toList]

def suspicious : List Text :=
  ["eval".toList, "curl | sh".toList, "wget | sh".toList, "systemctl".toList, "sudo".toList,
    "setcap".toList, "chmod +s".toList, "mount ".toList, "insmod".toList, "modprobe".toList]

/-- The manifest before the last checks. -/
def manifestOf (text : Text) : Manifest where
  name := assignment text "pkgname".toList
  version := assignment text "pkgver".toList
  release := assignment text "pkgrel".toList
  architectures := words (assignment text "arch".toList)
  sources := sourcesOf (words (assignment text "source".toList))
    (words (assignment text "sha256sums".toList))
  phases := phaseNames.filter fun phase => Search.occurs (phase ++ "()".toList) text
  findings := (suspicious.filter fun pattern => Search.occurs pattern text).map fun pattern =>
    "PKGBUILD contains suspicious construct: ".toList ++ pattern

def parse (file : Pkgbuild) (maxBytes : Nat := 1048576) : Except Text Manifest :=
  if !file.regularFile then .error "PKGBUILD is not a regular file".toList
  else if file.size > maxBytes then .error "PKGBUILD exceeds size limit".toList
  else if !file.opens then .error "PKGBUILD open failed".toList
  else if '\x00' ∈ file.text then .error "PKGBUILD contains NUL byte".toList
  else
    let result := manifestOf file.text
    if result.name = [] ∨ result.version = [] then
      .error "PKGBUILD missing pkgname or pkgver".toList
    else if result.architectures = [] then
      .ok { result with
        findings := result.findings ++ ["architecture declaration missing".toList] }
    else .ok result

/-! ## Lines and words -/

/-- What separates words. -/
def isBreak (c : Char) : Bool := isSpace c || isBracket c

theorem words_eq (value : Text) : words value = Words.split isBreak value := by
  apply Words.split_map
  · intro c
    by_cases hbracket : isBracket c = true
    · rw [if_pos hbracket, isBreak, hbracket, Bool.or_true]
      rfl
    · rw [if_neg hbracket, isBreak, Bool.eq_false_iff.mpr hbracket, Bool.or_false]
  · intro c hc
    rw [isBreak, Bool.or_eq_false_iff] at hc
    rw [if_neg (by simp [hc.2])]

/-- What stands in front of the first line that begins with a key: whole lines that do
not, and the indentation. -/
structure Front (key : Text) where
  lines : List Text
  indent : Text
  newlineFree : ∀ line ∈ lines, '\n' ∉ line
  others : ∀ line ∈ lines, ¬ label key <+: line.dropWhile isBlank
  blank : ∀ c ∈ indent, isBlank c = true

def Front.text {key : Text} (front : Front key) : Text :=
  front.lines.flatMap (· ++ ['\n']) ++ front.indent

section Assignment

variable {key rest : Text}

/-- A key as it stands at the start of a line. -/
structure IsKey (key : Text) : Prop where
  newline : '\n' ∉ key
  visible : ∀ c ∈ (label key).head?, isBlank c = false

theorem label_ne_nil (key : Text) : label key ≠ [] := by simp [label]

theorem newline_not_mem_label (h : IsKey key) : '\n' ∉ label key := by
  rw [label, List.mem_append, not_or]
  exact ⟨h.newline, by decide⟩

/-- The line of the assignment, without its indentation. -/
theorem line_of_indent {indent : Text} (hkey : IsKey key)
    (hblank : ∀ c ∈ indent, isBlank c = true) :
    ((indent ++ (label key ++ rest)).takeWhile (· ≠ '\n')).dropWhile isBlank =
      label key ++ rest.takeWhile (· ≠ '\n') := by
  have hindent : ∀ c ∈ indent, (decide (c ≠ '\n')) = true := by
    intro c hc
    have hne : c ≠ '\n' := fun heq => absurd (hblank c hc) (by rw [heq]; decide)
    simpa using hne
  have hlabel : ∀ c ∈ label key, (decide (c ≠ '\n')) = true := by
    intro c hc
    have hne : c ≠ '\n' := fun heq => newline_not_mem_label hkey (heq ▸ hc)
    simpa using hne
  rw [List.takeWhile_append_of_pos hindent, List.takeWhile_append_of_pos hlabel,
    List.dropWhile_append_of_pos hblank]
  obtain ⟨c, tail, hcons⟩ := List.exists_cons_of_ne_nil (label_ne_nil key)
  have hvisible : isBlank c = false := hkey.visible c (by rw [hcons]; rfl)
  rw [hcons, List.cons_append, List.dropWhile_cons_of_neg (by simp [hvisible])]

/-- The loop stops at the first line that begins with the key. -/
theorem assignmentLoop_lines {lines : List Text} {indent : Text} {fuel : Nat} (hkey : IsKey key)
    (hfuel : lines.length < fuel) (hnewline : ∀ line ∈ lines, '\n' ∉ line)
    (hothers : ∀ line ∈ lines, ¬ label key <+: line.dropWhile isBlank)
    (hblank : ∀ c ∈ indent, isBlank c = true) :
    assignmentLoop key fuel (lines.flatMap (· ++ ['\n']) ++ (indent ++ (label key ++ rest))) =
      lineValue (rest.takeWhile (· ≠ '\n')) := by
  induction lines generalizing fuel with
  | nil =>
    cases fuel with
    | zero => exact absurd hfuel (Nat.not_lt_zero _)
    | succ fuel =>
      have hne : indent ++ (label key ++ rest) ≠ [] := by simp [label]
      rw [List.flatMap_nil, List.nil_append, assignmentLoop, if_neg hne, line_of_indent hkey hblank]
      dsimp only
      rw [if_pos (List.prefix_append ..), List.drop_left]
  | cons line lines ih =>
    cases fuel with
    | zero => exact absurd hfuel (Nat.not_lt_zero _)
    | succ fuel =>
      rw [List.forall_mem_cons] at hnewline hothers
      have hrest := ih (Nat.lt_of_succ_lt_succ hfuel) hnewline.2 hothers.2
      generalize hmore : lines.flatMap (· ++ ['\n']) ++ (indent ++ (label key ++ rest)) = more
        at hrest
      have htext : (line :: lines).flatMap (· ++ ['\n']) ++ (indent ++ (label key ++ rest)) =
          line ++ '\n' :: more := by
        rw [← hmore]
        simp
      have hne : line ++ '\n' :: more ≠ [] := by simp
      have hhead : ∀ c ∈ ('\n' :: more).head?, c = '\n' := by
        intro c hc
        exact (Option.some.inj hc).symm
      rw [htext, assignmentLoop, if_neg hne, Search.takeWhile_ne_append hnewline.1 hhead,
        Search.dropWhile_ne_append hnewline.1 hhead]
      dsimp only
      rw [if_neg hothers.1]
      exact hrest

theorem lines_le_length (lines : List Text) :
    lines.length ≤ (lines.flatMap (· ++ ['\n'])).length := by
  induction lines with
  | nil => exact Nat.le_refl _
  | cons line lines ih =>
    rw [List.flatMap_cons, List.length_append, List.length_append, List.length_singleton,
      List.length_cons]
    omega

/-- `assignment` returns what the first line that begins with the key assigns. -/
theorem assignment_front (hkey : IsKey key) (front : Front key) :
    assignment (front.text ++ (label key ++ rest)) key =
      lineValue (rest.takeWhile (· ≠ '\n')) := by
  have hlines := lines_le_length front.lines
  have hlabel : 0 < (label key).length := List.length_pos_iff.mpr (label_ne_nil key)
  rw [assignment, Front.text, List.append_assoc]
  apply assignmentLoop_lines hkey ?_ front.newlineFree front.others front.blank
  rw [List.length_append, List.length_append, List.length_append]
  omega

end Assignment

/-! ## Arrays -/

inductive Quote where
  | none
  | single
  | double
  deriving DecidableEq, Repr

def Quote.text : Quote → Text
  | .none => []
  | .single => ['\'']
  | .double => ['"']

/-- What may stand between the elements of an array. -/
def isGap (c : Char) : Bool := c = ' ' || c = '\t' || c = '\n'

/-- An element of an array, and what follows it. -/
structure Item where
  word : Text
  quote : Quote := .none
  gap : Text
  nonempty : word ≠ []
  plain : ∀ c ∈ word, isBreak c = false
  gapped : ∀ c ∈ gap, isGap c = true

def Item.text (item : Item) : Text := item.quote.text ++ (item.word ++ (item.quote.text ++ item.gap))

/-- How an array is written; only its last element may have nothing behind it. -/
structure Layout where
  lead : Text := []
  items : List Item
  leading : ∀ c ∈ lead, isGap c = true
  apart : ∀ item ∈ items.dropLast, item.gap ≠ []

namespace Layout

/-- The array behind its opening parenthesis. -/
def tail (layout : Layout) : Text := layout.lead ++ (layout.items.flatMap Item.text ++ [')'])

def words (layout : Layout) : List Text := layout.items.map Item.word

end Layout

/-- The elements up to the end of the line. -/
def onLine : List Item → List Item
  | [] => []
  | item :: items => item :: if '\n' ∈ item.gap then [] else onLine items

/-- The elements on the line on which the array begins. -/
def Layout.onLine (layout : Layout) : List Item :=
  if '\n' ∈ layout.lead then [] else Aur.onLine layout.items

/-- The array ends on the line on which it begins. -/
def Layout.OneLine (layout : Layout) : Prop :=
  '\n' ∉ layout.lead ∧ ∀ item ∈ layout.items, '\n' ∉ item.gap

instance (layout : Layout) : Decidable layout.OneLine := inferInstanceAs (Decidable (_ ∧ _))

section Items

variable {items : List Item} {item : Item} {rest : Text}

theorem isBreak_of_isGap {c : Char} (h : isGap c = true) : isBreak c = true := by
  simp only [isGap, Bool.or_eq_true, decide_eq_true_eq] at h
  rcases h with (rfl | rfl) | rfl
  · decide
  · decide
  · decide

theorem isBreak_of_mem_quote {quote : Quote} {c : Char} (h : c ∈ quote.text) :
    isBreak c = true ∧ c ≠ '\n' := by
  cases quote with
  | none => cases h
  | single =>
    rw [List.mem_singleton.mp h]
    decide
  | double =>
    rw [List.mem_singleton.mp h]
    decide

theorem newline_not_mem_word (item : Item) : '\n' ∉ item.word := by
  intro hmem
  exact absurd (item.plain _ hmem) (by decide)

/-- The quotes and the word are on one line. -/
theorem takeWhile_item (item : Item) (rest : Text) :
    (item.text ++ rest).takeWhile (· ≠ '\n') =
      item.quote.text ++ (item.word ++ (item.quote.text ++
        (item.gap ++ rest).takeWhile (· ≠ '\n'))) := by
  have hquote : ∀ c ∈ item.quote.text, (decide (c ≠ '\n')) = true := by
    intro c hc
    simpa using (isBreak_of_mem_quote hc).2
  have hword : ∀ c ∈ item.word, (decide (c ≠ '\n')) = true := by
    intro c hc
    have hne : c ≠ '\n' := fun heq => newline_not_mem_word item (heq ▸ hc)
    simpa using hne
  rw [Item.text, List.append_assoc, List.append_assoc, List.append_assoc,
    List.takeWhile_append_of_pos hquote, List.takeWhile_append_of_pos hword,
    List.takeWhile_append_of_pos hquote]

/-- The first word of a text that begins with an element. -/
theorem split_item (h : ∀ c ∈ (item.quote.text ++ rest).head?, isBreak c = true) :
    Words.split isBreak (item.quote.text ++ (item.word ++ (item.quote.text ++ rest))) =
      item.word :: Words.split isBreak rest := by
  have hquote : ∀ c ∈ item.quote.text, isBreak c = true := fun c hc => (isBreak_of_mem_quote hc).1
  rw [Words.split_append hquote, Words.split_word_append item.nonempty item.plain h,
    Words.split_append hquote]

/-- A line ends within a gap that has a newline, and behind one that has none. -/
theorem takeWhile_gap {gap : Text} : (gap ++ rest).takeWhile (· ≠ '\n') =
    if '\n' ∈ gap then gap.takeWhile (· ≠ '\n') else gap ++ rest.takeWhile (· ≠ '\n') := by
  have hwhole : gap.takeWhile (· ≠ '\n') = gap ↔ '\n' ∉ gap := by
    rw [List.takeWhile_eq_self_iff]
    constructor
    · intro h hmem
      simpa using h '\n' hmem
    · intro h c hc
      have hne : c ≠ '\n' := fun heq => h (heq ▸ hc)
      simpa using hne
  split
  · rename_i hnewline
    rw [List.takeWhile_append, if_neg]
    intro hlength
    exact hwhole.mp (List.takeWhile_prefix _ |>.eq_of_length hlength) hnewline
  · rename_i hnewline
    rw [List.takeWhile_append, if_pos (congrArg List.length (hwhole.mpr hnewline))]

theorem split_gap {gap : Text} (h : ∀ c ∈ gap, isGap c = true) :
    Words.split isBreak ((gap ++ rest).takeWhile (· ≠ '\n')) =
      if '\n' ∈ gap then [] else Words.split isBreak (rest.takeWhile (· ≠ '\n')) := by
  rw [takeWhile_gap]
  split
  · apply Words.split_eq_nil_iff.mpr
    intro c hc
    exact isBreak_of_isGap (h c (List.takeWhile_subset _ hc))
  · exact Words.split_append fun c hc => isBreak_of_isGap (h c hc)

/-- Behind an element comes a break. -/
theorem head_of_item {behind : Text} (hapart : ∀ other ∈ (item :: items).dropLast, other.gap ≠ []) :
    ∀ c ∈ (item.quote.text ++ (item.gap ++ (items.flatMap Item.text ++ ')' :: behind)).takeWhile
      (· ≠ '\n')).head?, isBreak c = true := by
  intro c hc
  rw [List.head?_append, Option.mem_def, Option.or_eq_some_iff] at hc
  rcases hc with hquote | ⟨_, hline⟩
  · exact (isBreak_of_mem_quote (List.mem_of_head? hquote)).1
  · rw [List.head?_takeWhile, Option.filter_eq_some_iff] at hline
    obtain ⟨hhead, _⟩ := hline
    rw [List.head?_append, Option.or_eq_some_iff] at hhead
    rcases hhead with hgap | ⟨hgap, hrest⟩
    · exact isBreak_of_isGap (item.gapped c (List.mem_of_head? hgap))
    · -- nothing behind it, so it is the last one
      cases items with
      | nil =>
        obtain rfl := Option.some.inj hrest
        decide
      | cons next items =>
        rw [List.head?_eq_none_iff] at hgap
        exact absurd hgap (hapart item (by simp))

/-- The words of a line that begins with elements of an array. -/
theorem split_items {behind : Text} (hapart : ∀ item ∈ items.dropLast, item.gap ≠ []) :
    Words.split isBreak ((items.flatMap Item.text ++ ')' :: behind).takeWhile (· ≠ '\n')) =
      (onLine items).map Item.word ++
        if ∀ item ∈ items, '\n' ∉ item.gap then
          Words.split isBreak (behind.takeWhile (· ≠ '\n'))
        else [] := by
  induction items with
  | nil =>
    rw [List.flatMap_nil, List.nil_append, List.takeWhile_cons_of_pos (by decide),
      Words.split_cons (by decide), if_pos (by simp)]
    rfl
  | cons item items ih =>
    have hlater : ∀ other ∈ items.dropLast, other.gap ≠ [] := by
      intro other hother
      apply hapart other
      cases items with
      | nil => cases hother
      | cons next items =>
        rw [List.dropLast_cons_of_ne_nil (by simp)]
        exact List.mem_cons_of_mem _ hother
    rw [List.flatMap_cons, List.append_assoc, takeWhile_item, split_item (head_of_item hapart),
      split_gap item.gapped, onLine, List.map_cons, List.cons_append]
    by_cases hnewline : '\n' ∈ item.gap
    · simp [hnewline]
    · rw [if_neg hnewline, if_neg hnewline, ih hlater]
      simp only [List.forall_mem_cons, hnewline, not_false_eq_true, true_and]

theorem onLine_prefix (items : List Item) : onLine items <+: items := by
  induction items with
  | nil => exact List.prefix_rfl
  | cons item items ih =>
    rw [onLine]
    split
    · exact ⟨items, rfl⟩
    · exact (List.cons_prefix_cons.mpr ⟨rfl, ih⟩)

theorem onLine_eq_self (h : ∀ item ∈ items, '\n' ∉ item.gap) : onLine items = items := by
  induction items with
  | nil => rfl
  | cons item items ih =>
    rw [List.forall_mem_cons] at h
    rw [onLine, if_neg h.1, ih h.2]

end Items

/-- An array that is assigned to a variable, in its surroundings. -/
structure ArrayAssignment (key : Text) where
  front : Front key
  layout : Layout
  behind : Text

namespace ArrayAssignment

variable {key : Text} (array : ArrayAssignment key)

/-- The whole text. -/
def text : Text :=
  array.front.text ++ (label key ++ '(' :: (array.layout.tail ++ array.behind))

def words : List Text := array.layout.words

/-- The first `count` words of the line on which the array begins are those of the array:
as many elements stand on this line, and if the array has fewer and ends there, then
nothing but breaks stands behind it. -/
def Shows (count : Nat) : Prop :=
  min count array.words.length ≤ array.layout.onLine.length ∧
    (array.layout.OneLine → array.words.length < count →
      ∀ c ∈ array.behind.takeWhile (· ≠ '\n'), isBreak c = true)

/-- The words that `parse` finds. -/
theorem words_assignment (hkey : IsKey key) :
    Aur.words (assignment array.text key) =
      array.layout.onLine.map Item.word ++
        if array.layout.OneLine then
          Words.split isBreak (array.behind.takeWhile (· ≠ '\n'))
        else [] := by
  have hline : ('(' :: (array.layout.tail ++ array.behind)).takeWhile (· ≠ '\n') =
      '(' :: (array.layout.tail ++ array.behind).takeWhile (· ≠ '\n') :=
    List.takeWhile_cons_of_pos (by decide)
  have hvalue : ∀ line : Text, lineValue ('(' :: line) = '(' :: line := by
    intro line
    rw [lineValue, List.dropWhile_cons_of_neg (by decide), unquote, if_neg]
    rintro ⟨_, ⟨hhead, _⟩ | ⟨hhead, _⟩⟩
    · exact absurd hhead (by simp)
    · exact absurd hhead (by simp)
  rw [text, assignment_front hkey, hline, hvalue, words_eq, Words.split_cons (by decide),
    Layout.tail, List.append_assoc, List.append_assoc, split_gap array.layout.leading,
    List.singleton_append, split_items array.layout.apart, Layout.onLine]
  by_cases hlead : '\n' ∈ array.layout.lead
  · simp [hlead, Layout.OneLine]
  · simp only [hlead, Layout.OneLine, not_false_eq_true, true_and, if_false]

/-- When a list is cut off, or goes on, its first `count` elements may stay the same. -/
theorem take_cut_append_iff {α : Type} {list more : List α} {cut count : Nat}
    (hcut : cut ≤ list.length) (hmore : more ≠ [] → cut = list.length) :
    (list.take cut ++ more).take count = list.take count ↔
      min count list.length ≤ cut ∧ (list.length < count → more = []) := by
  by_cases hwhole : cut = list.length
  · rw [hwhole, List.take_length, List.take_append]
    by_cases hcount : list.length < count
    · rw [List.take_of_length_le hcount.le, List.append_right_eq_self, List.take_eq_nil_iff]
      simp only [hcount, true_imp_iff, Nat.min_le_right, true_and]
      constructor
      · rintro (hnone | hnil)
        · omega
        · exact hnil
      · exact Or.inr
    · rw [Nat.sub_eq_zero_of_le (Nat.not_lt.mp hcount), List.take_zero, List.append_nil]
      simp [hcount]
  · have hnil : more = [] := by
      by_contra hne
      exact hwhole (hmore hne)
    rw [hnil, List.append_nil, List.take_take, List.take_eq_take_iff]
    simp only [implies_true, and_true]
    omega

theorem shows_iff (hkey : IsKey key) (count : Nat) :
    (Aur.words (assignment array.text key)).take count = array.words.take count ↔
      array.Shows count := by
  have hprefix : array.layout.onLine <+: array.layout.items := by
    rw [Layout.onLine]
    split
    · exact List.nil_prefix
    · exact onLine_prefix _
  have hline : array.layout.onLine.map Item.word =
      array.words.take array.layout.onLine.length := by
    rw [words, Layout.words, ← List.map_take, ← List.prefix_iff_eq_take.mp hprefix]
  have hcut : array.layout.onLine.length ≤ array.words.length := by
    rw [words, Layout.words, List.length_map]
    exact hprefix.length_le
  have hwhole : array.layout.OneLine → array.layout.onLine.length = array.words.length := by
    rintro ⟨hlead, hitems⟩
    rw [Layout.onLine, if_neg hlead, onLine_eq_self hitems, words, Layout.words, List.length_map]
  rw [words_assignment array hkey, hline, take_cut_append_iff hcut, Shows]
  · by_cases hone : array.layout.OneLine
    · simp only [hone, if_true, true_imp_iff, Words.split_eq_nil_iff]
    · simp [hone]
  · intro hmore
    by_cases hone : array.layout.OneLine
    · exact hwhole hone
    · exact absurd (if_neg hone) hmore

theorem word_ne_nil {word : Text} (h : word ∈ array.words) : word ≠ [] := by
  obtain ⟨item, _, rfl⟩ := List.mem_map.mp h
  exact item.nonempty

end ArrayAssignment

/-! ## What `parse` returns -/

/-- A file that passes the checks of `parse`. -/
structure Readable (file : Pkgbuild) (maxBytes : Nat) : Prop where
  regularFile : file.regularFile = true
  size : file.size ≤ maxBytes
  opens : file.opens = true
  nulFree : '\x00' ∉ file.text

/-- The text assigns something to the variable: the value is neither missing nor an empty
string in quotes. -/
def Sets (text key : Text) : Prop :=
  ∃ (front : Front key) (rest : Text), text = front.text ++ (label key ++ rest) ∧
    (rest.takeWhile (· ≠ '\n')).dropWhile isBlank ∉ [[], ['\'', '\''], ['"', '"']]

/-- `parse` returns the words as sources, in this order and with these hashes. -/
def ReadsSources (file : Pkgbuild) (maxBytes : Nat) (words hashes : List Text) : Prop :=
  ∃ manifest, parse file maxBytes = .ok manifest ∧
    ∀ index : Nat, manifest.sources[index]? =
      words[index]?.map fun word => { value := word, hash := hashes[index]?.getD [] }

section Parse

variable {file : Pkgbuild} {maxBytes : Nat} {text key : Text}

theorem unquote_ne_nil {line : Text} (h : line ∉ [[], ['\'', '\''], ['"', '"']]) :
    unquote line ≠ [] := by
  simp only [List.mem_cons, List.not_mem_nil, or_false, not_or] at h
  obtain ⟨hne, hsingle, hdouble⟩ := h
  rw [unquote]
  split
  · rename_i hquoted
    obtain ⟨hlength, hends⟩ := hquoted
    -- only two quotes and nothing between them would leave nothing
    intro hempty
    rw [List.take_eq_nil_iff, List.drop_eq_nil_iff] at hempty
    have htwo : line.length = 2 := by omega
    obtain ⟨a, b, rfl⟩ := List.length_eq_two.mp htwo
    rcases hends with ⟨hhead, hlast⟩ | ⟨hhead, hlast⟩
    · obtain rfl := Option.some.inj hhead
      obtain rfl := Option.some.inj hlast
      exact hsingle rfl
    · obtain rfl := Option.some.inj hhead
      obtain rfl := Option.some.inj hlast
      exact hdouble rfl
  · exact hne

theorem assignment_ne_nil (hkey : IsKey key) (h : Sets text key) : assignment text key ≠ [] := by
  obtain ⟨front, rest, rfl, hvalue⟩ := h
  rw [assignment_front hkey, lineValue]
  exact unquote_ne_nil hvalue

/-- A PKGBUILD that sets the name and the version is refused only by the checks of the
file, and the sources are those of the two lines. -/
theorem parse_ok_iff (hname : assignment file.text "pkgname".toList ≠ [])
    (hversion : assignment file.text "pkgver".toList ≠ []) (sources : List Source) :
    (∃ manifest, parse file maxBytes = .ok manifest ∧ manifest.sources = sources) ↔
      Readable file maxBytes ∧ (manifestOf file.text).sources = sources := by
  have hset : ¬ ((manifestOf file.text).name = [] ∨ (manifestOf file.text).version = []) := by
    rintro (hnil | hnil)
    · exact hname hnil
    · exact hversion hnil
  rw [parse]
  constructor
  · rintro ⟨manifest, hparse, hsources⟩
    split at hparse
    · cases hparse
    rename_i hregular
    split at hparse
    · cases hparse
    rename_i hsize
    split at hparse
    · cases hparse
    rename_i hopens
    split at hparse
    · cases hparse
    rename_i hnul
    dsimp only at hparse
    rw [if_neg hset] at hparse
    refine ⟨⟨by simpa using hregular, by omega, by simpa using hopens, hnul⟩, ?_⟩
    rw [← hsources]
    split at hparse
    · obtain rfl := Except.ok.inj hparse
      rfl
    · obtain rfl := Except.ok.inj hparse
      rfl
  · rintro ⟨hreadable, hsources⟩
    rw [if_neg (by simp [hreadable.regularFile]), if_neg (by have := hreadable.size; omega),
      if_neg (by simp [hreadable.opens]), if_neg hreadable.nulFree]
    dsimp only
    rw [if_neg hset]
    split
    · exact ⟨_, rfl, hsources⟩
    · exact ⟨_, rfl, hsources⟩

/-- Words and hashes are paired by their positions. -/
theorem sourcesOf_eq_iff {found words foundHashes hashes : List Text}
    (hfound : ∀ hash ∈ foundHashes, hash ≠ []) (hhashes : ∀ hash ∈ hashes, hash ≠ []) :
    (∀ index : Nat, (sourcesOf found foundHashes)[index]? =
      words[index]?.map fun word => { value := word, hash := hashes[index]?.getD [] }) ↔
    found = words ∧ foundHashes.take words.length = hashes.take words.length := by
  simp only [sourcesOf, List.getElem?_mapIdx]
  have hgetD : ∀ (list : List Text) (index : Nat), (∀ hash ∈ list, hash ≠ []) →
      list[index]? = if list[index]?.getD [] = [] then none else some (list[index]?.getD []) := by
    intro list index hne
    cases hget : list[index]? with
    | none => rfl
    | some hash =>
      have hnil := hne hash (List.mem_of_getElem? hget)
      simp [hnil]
  constructor
  · intro h
    have hwords : found = words := by
      apply List.ext_getElem?
      intro index
      have hvalue := congrArg (Option.map Source.value) (h index)
      simpa [Option.map_map, Function.comp_def] using hvalue
    refine ⟨hwords, List.ext_getElem? fun index => ?_⟩
    rw [List.getElem?_take, List.getElem?_take]
    split
    · rename_i hindex
      have hhash := congrArg (Option.map Source.hash) (h index)
      rw [hwords, List.getElem?_eq_getElem hindex] at hhash
      have hsame : foundHashes[index]?.getD [] = hashes[index]?.getD [] := by simpa using hhash
      rw [hgetD foundHashes index hfound, hgetD hashes index hhashes, hsame]
    · rfl
  · rintro ⟨rfl, htake⟩ index
    cases hget : found[index]? with
    | none => rfl
    | some word =>
      have hindex := (List.getElem?_eq_some_iff.mp hget).1
      have hhash := congrArg (·[index]?) htake
      simp only [List.getElem?_take, if_pos hindex] at hhash
      rw [Option.map_some, Option.map_some, hhash]

/-- Take any PKGBUILD that sets the name and the version and in which the first lines that
begin with `source=` and with `sha256sums=` start an array, laid out in any way. Its
sources come out as written if and only if the file passes the checks, the whole array of
sources stands on one line with nothing behind it, and as many hashes as there are sources
stand on one line, with nothing behind them if there are fewer. -/
theorem parse_sources_iff (sources : ArrayAssignment "source".toList)
    (sums : ArrayAssignment "sha256sums".toList) (hsources : file.text = sources.text)
    (hsums : file.text = sums.text) (hname : Sets file.text "pkgname".toList)
    (hversion : Sets file.text "pkgver".toList) :
    ReadsSources file maxBytes sources.words sums.words ↔
      Readable file maxBytes ∧ sources.Shows (sources.words.length + 1) ∧
        sums.Shows sources.words.length := by
  have hmanifest : (manifestOf file.text).sources =
      sourcesOf (words (assignment sources.text "source".toList))
        (words (assignment sums.text "sha256sums".toList)) := by
    rw [manifestOf, ← hsources, ← hsums]
  have hfound : ∀ hash ∈ words (assignment sums.text "sha256sums".toList), hash ≠ [] := by
    intro hash hmem
    rw [words_eq] at hmem
    exact Words.ne_nil_of_mem_split hmem
  have hwhole : words (assignment sources.text "source".toList) = sources.words ↔
      sources.Shows (sources.words.length + 1) := by
    rw [← sources.shows_iff ⟨by decide, by decide⟩,
      List.take_of_length_le (Nat.le_succ sources.words.length)]
    constructor
    · intro heq
      rw [heq, List.take_of_length_le (Nat.le_succ _)]
    · intro htake
      -- a list whose first elements are too few for the bound has no others
      have hlength := congrArg List.length htake
      rw [List.length_take] at hlength
      rwa [List.take_of_length_le (by omega)] at htake
  have hparse := fun list => @parse_ok_iff file maxBytes
    (assignment_ne_nil ⟨by decide, by decide⟩ hname)
    (assignment_ne_nil ⟨by decide, by decide⟩ hversion) list
  rw [← hwhole, ← sums.shows_iff ⟨by decide, by decide⟩,
    ← sourcesOf_eq_iff hfound fun _ => sums.word_ne_nil, ← hmanifest]
  constructor
  · rintro ⟨manifest, hok, hlist⟩
    obtain ⟨hreadable, heq⟩ := (hparse _).mp ⟨manifest, hok, rfl⟩
    exact ⟨hreadable, heq ▸ hlist⟩
  · rintro ⟨hreadable, hlist⟩
    obtain ⟨manifest, hok, heq⟩ := (hparse _).mpr ⟨hreadable, rfl⟩
    exact ⟨manifest, hok, heq ▸ hlist⟩

end Parse

/-- Both arrays on one line each. -/
def shortText : Text := "pkgname=a\npkgver=1\nsource=('x' y)\nsha256sums=(p)\n".toList

def shortSources : ArrayAssignment "source".toList where
  front := ⟨["pkgname=a".toList, "pkgver=1".toList], [], by decide, by decide, by decide⟩
  layout := ⟨[], [⟨['x'], .single, [' '], by decide, by decide, by decide⟩,
    ⟨['y'], .none, [], by decide, by decide, by decide⟩], by decide, by simp⟩
  behind := "\nsha256sums=(p)\n".toList

def shortSums : ArrayAssignment "sha256sums".toList where
  front := ⟨["pkgname=a".toList, "pkgver=1".toList, "source=('x' y)".toList], [],
    by decide, by decide, by decide⟩
  layout := ⟨[], [⟨['p'], .none, [], by decide, by decide, by decide⟩], by decide, by simp⟩
  behind := ['\n']

theorem parse_shortText :
    ReadsSources { size := 52, text := shortText } 1048576 [['x'], ['y']] [['p']] := by
  have hname : Sets shortText "pkgname".toList :=
    ⟨⟨[], [], by simp, by simp, by simp⟩, "a\npkgver=1\nsource=('x' y)\nsha256sums=(p)\n".toList,
      by decide, by decide⟩
  have hversion : Sets shortText "pkgver".toList :=
    ⟨⟨["pkgname=a".toList], [], by decide, by decide, by simp⟩,
      "1\nsource=('x' y)\nsha256sums=(p)\n".toList, by decide, by decide⟩
  apply (parse_sources_iff shortSources shortSums (by decide) (by decide) hname hversion).mpr
  exact ⟨⟨rfl, by decide, rfl, by decide⟩, ⟨by decide, by decide⟩, ⟨by decide, by decide⟩⟩

/-- The second source on a line of its own. -/
def wrappedText : Text := "pkgname=a\npkgver=1\nsource=('x'\n  y)\nsha256sums=(p)\n".toList

def wrappedSources : ArrayAssignment "source".toList where
  front := ⟨["pkgname=a".toList, "pkgver=1".toList], [], by decide, by decide, by decide⟩
  layout := ⟨[], [⟨['x'], .single, "\n  ".toList, by decide, by decide, by decide⟩,
    ⟨['y'], .none, [], by decide, by decide, by decide⟩], by decide, by simp⟩
  behind := "\nsha256sums=(p)\n".toList

def wrappedSums : ArrayAssignment "sha256sums".toList where
  front := ⟨["pkgname=a".toList, "pkgver=1".toList, "source=('x'".toList, "  y)".toList], [],
    by decide, by decide, by decide⟩
  layout := ⟨[], [⟨['p'], .none, [], by decide, by decide, by decide⟩], by decide, by simp⟩
  behind := ['\n']

/-- The second source is lost. -/
theorem wrappedText_not_read :
    wrappedText = wrappedSources.text ∧ wrappedText = wrappedSums.text ∧
    Sets wrappedText "pkgname".toList ∧ Sets wrappedText "pkgver".toList ∧
    Readable { size := 54, text := wrappedText } 1048576 ∧
    ¬ ReadsSources { size := 54, text := wrappedText } 1048576 wrappedSources.words
      wrappedSums.words := by
  refine ⟨by decide, by decide, ?_, ?_, ⟨rfl, by decide, rfl, by decide⟩, ?_⟩
  · exact ⟨⟨[], [], by simp, by simp, by simp⟩,
      "a\npkgver=1\nsource=('x'\n  y)\nsha256sums=(p)\n".toList, by decide, by decide⟩
  · exact ⟨⟨["pkgname=a".toList], [], by decide, by decide, by simp⟩,
      "1\nsource=('x'\n  y)\nsha256sums=(p)\n".toList, by decide, by decide⟩
  · rintro ⟨manifest, hparse, hsources⟩
    have hresult : (parse { size := 54, text := wrappedText }).map Manifest.sources =
        .ok [{ value := ['x'], hash := ['p'] }] := by rfl
    rw [hparse] at hresult
    have hsecond := hsources 1
    rw [Except.ok.inj hresult] at hsecond
    cases hsecond

end ExeCell.Package.Aur
