import Mathlib.Data.List.Infix
import ExeCell.Lib.Search

/-!
# POSIX paths and their lexical normal form

`std::filesystem::path` on a POSIX system: a path is its text, `/` separates names,
and normalisation is purely lexical. The normal form is computed by a stack of names
together with a flag for a trailing separator: `.` and empty names leave a trailing
separator behind, `..` removes the name below it.

* `lexicallyNormal` and `append` are `path::lexically_normal` and `operator/`.
* `Covers rule path` is the meaning of a directory rule: after normalisation the path
  is the directory itself or lies component-wise beneath it.
* `covers_of_prefix`, `NormalRule.prefix_of_spelledOut`: how a text has to be spelled for this
  to be the same as starting with the text of the rule.
* `strictlyBeneath_append`: a path of plain names joined to a directory lies beneath it.
-/

namespace LexicalPath

/-- The text of a path. -/
abbrev Path := List Char

def dotdot : List Char := ['.', '.']

/-- A path that starts at the root directory. -/
def isAbsolute (path : Path) : Bool := path.head? = some '/'

/-- `operator/`. -/
def append (base path : Path) : Path :=
  if isAbsolute path then path
  else if base = [] ∨ base.getLast? = some '/' then base ++ path
  else base ++ '/' :: path

/-- `filename`. -/
def filename (path : Path) : Path := (path.reverse.takeWhile (· ≠ '/')).reverse

/-- The names kept so far, the last one first, and whether a separator follows them. -/
structure Stack where
  names : List (List Char) := []
  slash : Bool := false
  deriving DecidableEq

/-- Push one element of a path. -/
def Stack.push (absolute : Bool) (stack : Stack) (name : List Char) : Stack :=
  if name = [] ∨ name = ['.'] then { stack with slash := true }
  else if name = dotdot then
    match stack.names with
    | [] => if absolute then stack else { names := [dotdot], slash := false }
    | top :: below =>
      if top = dotdot then { names := dotdot :: top :: below, slash := false }
      else { names := below, slash := true }
  else { names := name :: stack.names, slash := false }

/-- The stack after all elements of the path. -/
def stackOf (path : Path) : Stack :=
  (path.splitOn '/').foldl (Stack.push (isAbsolute path)) {}

/-- The names of the normal form, in order. -/
def normalNames (path : Path) : List (List Char) := (stackOf path).names.reverse

/-- Names joined by separators. -/
def join (names : List (List Char)) : List Char := List.intercalate ['/'] names

/-- The separator after the last name; a final `..` never carries one. -/
def Stack.tail (stack : Stack) : List Char :=
  match stack.names with
  | [] => []
  | top :: _ => if stack.slash ∧ top ≠ dotdot then ['/'] else []

/-- The names of a stack written out. -/
def Stack.text (absolute : Bool) (stack : Stack) : List Char :=
  (if absolute then ['/'] else []) ++ join stack.names.reverse ++ stack.tail

/-- `path::lexically_normal`. -/
def lexicallyNormal (path : Path) : Path :=
  let text := (stackOf path).text (isAbsolute path)
  if path = [] then [] else if text = [] then ['.'] else text

/-- After normalisation `path` is `rule` itself or lies beneath it. -/
def Covers (rule path : Path) : Prop :=
  isAbsolute rule = isAbsolute path ∧ normalNames rule <+: normalNames path

instance (rule path : Path) : Decidable (Covers rule path) :=
  inferInstanceAs (Decidable (_ ∧ _))

theorem filename_append {path ending : Path} (h : '/' ∉ ending) :
    filename (path ++ ending) = filename path ++ ending := by
  have hall : ∀ c ∈ ending.reverse, decide (c ≠ '/') = true := by
    intro c hc
    rw [decide_eq_true_eq]
    rintro rfl
    exact h (List.mem_reverse.mp hc)
  rw [filename, List.reverse_append, List.takeWhile_append_of_pos hall, List.reverse_append,
    List.reverse_reverse, filename]

/-! ## The names of a path -/

/-- A name that can stand between two separators. -/
def IsName (name : List Char) : Prop := name ≠ [] ∧ '/' ∉ name

theorem push_names {absolute : Bool} {stack : Stack} {name : List Char} (hname : '/' ∉ name)
    (h : ∀ n ∈ stack.names, IsName n) : ∀ n ∈ (stack.push absolute name).names, IsName n := by
  have hdotdot : IsName dotdot := by
    refine ⟨by decide, by decide⟩
  rw [Stack.push]
  split
  · exact h
  · rename_i hempty
    have hne : name ≠ [] := fun hnil => hempty (Or.inl hnil)
    split
    · split
      · split
        · exact h
        · exact List.forall_mem_singleton.mpr hdotdot
      · rename_i top below hnames
        rw [hnames, List.forall_mem_cons] at h
        split
        · exact List.forall_mem_cons.mpr ⟨hdotdot, List.forall_mem_cons.mpr h⟩
        · exact h.2
    · exact List.forall_mem_cons.mpr ⟨⟨hne, hname⟩, h⟩

theorem not_mem_of_mem_splitOn {path name : List Char} (h : name ∈ path.splitOn '/') :
    '/' ∉ name := by
  induction path generalizing name with
  | nil =>
    rw [List.splitOn_nil, List.mem_singleton] at h
    simp [h]
  | cons c path ih =>
    rw [List.splitOn_cons_eq_if_modifyHead] at h
    split at h
    · rcases List.mem_cons.mp h with rfl | h
      · simp
      · exact ih h
    · rename_i hc
      cases hsplit : path.splitOn '/' with
      | nil => exact absurd hsplit (List.splitOn_ne_nil _ _)
      | cons first rest =>
        rw [hsplit, List.modifyHead_cons] at h
        have hfirst : '/' ∉ first := ih (by rw [hsplit]; exact List.mem_cons_self ..)
        rcases List.mem_cons.mp h with rfl | h
        · rw [List.mem_cons, not_or]
          exact ⟨fun heq => hc (beq_iff_eq.mpr heq.symm), hfirst⟩
        · exact ih (by rw [hsplit]; exact List.mem_cons_of_mem _ h)

theorem isName_of_mem_normalNames {path name : List Char} (h : name ∈ normalNames path) :
    IsName name := by
  have hfold : ∀ (pieces : List (List Char)) (stack : Stack), (∀ n ∈ pieces, '/' ∉ n) →
      (∀ n ∈ stack.names, IsName n) →
      ∀ n ∈ (pieces.foldl (Stack.push (isAbsolute path)) stack).names, IsName n := by
    intro pieces
    induction pieces with
    | nil => exact fun _ _ hstack => hstack
    | cons piece pieces ih =>
      intro stack hpieces hstack
      rw [List.forall_mem_cons] at hpieces
      exact ih _ hpieces.2 (push_names hpieces.1 hstack)
  apply hfold (path.splitOn '/') {} (fun n hn => not_mem_of_mem_splitOn hn) (by simp) name
  exact List.mem_reverse.mp h

/-- A name that normalisation keeps as it is. -/
def Plain (name : List Char) : Prop := name ≠ [] ∧ name ≠ ['.'] ∧ name ≠ dotdot

instance (name : List Char) : Decidable (Plain name) := inferInstanceAs (Decidable (_ ∧ _))

/-- A name that leaves the directory where it is. -/
def isIdle (name : List Char) : Bool := name = [] || name = ['.']

theorem Plain.isIdle {name : List Char} (h : Plain name) : isIdle name = false := by
  simp [LexicalPath.isIdle, h.1, h.2.1]

/-- Without `..` nothing is taken off the stack. -/
theorem foldl_push_names {absolute : Bool} {names : List (List Char)} {stack : Stack}
    (h : dotdot ∉ names) :
    (names.foldl (Stack.push absolute) stack).names =
      (names.filter fun name => !isIdle name).reverse ++ stack.names := by
  induction names generalizing stack with
  | nil => rfl
  | cons name names ih =>
    rw [List.mem_cons, not_or] at h
    rw [List.foldl_cons, ih h.2, Stack.push]
    by_cases hidle : name = [] ∨ name = ['.']
    · have hdropped : isIdle name = true := by simpa [isIdle] using hidle
      rw [if_pos hidle, List.filter_cons_of_neg (by simp [hdropped])]
    · rw [if_neg hidle, if_neg (Ne.symm h.1),
        List.filter_cons_of_pos (by simpa [isIdle] using hidle), List.reverse_cons,
        List.append_assoc]
      rfl

theorem foldl_push_of_plain {absolute : Bool} {names : List (List Char)} {stack : Stack}
    (h : ∀ n ∈ names, Plain n) :
    (names.foldl (Stack.push absolute) stack).names = names.reverse ++ stack.names := by
  rw [foldl_push_names fun hmem => (h dotdot hmem).2.2 rfl, List.filter_eq_self.mpr]
  intro n hn
  rw [(h n hn).isIdle]
  rfl

/-- The stack of a path that continues a directory. -/
theorem stackOf_continue {base path : Path} {absolute : Bool}
    (habsolute : isAbsolute (base ++ '/' :: path) = absolute) :
    stackOf (base ++ '/' :: path) =
      (path.splitOn '/').foldl (Stack.push absolute)
        ((base.splitOn '/').foldl (Stack.push absolute) {}) := by
  rw [stackOf, habsolute, List.splitOn_append_cons_self, List.foldl_append]

/-! ## Texts of normal paths -/

/-- Every name with the separator before it. -/
def body (names : List (List Char)) : List Char := names.flatMap fun name => '/' :: name

@[simp] theorem body_cons (name : List Char) (names : List (List Char)) :
    body (name :: names) = '/' :: name ++ body names := rfl

@[simp] theorem body_append (names names' : List (List Char)) :
    body (names ++ names') = body names ++ body names' := List.flatMap_append

theorem slash_join {names : List (List Char)} (h : names ≠ []) :
    '/' :: join names = body names := by
  induction names with
  | nil => exact absurd rfl h
  | cons name names ih =>
    cases names with
    | nil => simp [join, body]
    | cons next rest =>
      have hrest := ih (List.cons_ne_nil _ _)
      rw [body_cons, ← hrest]
      simp [join]

/-- The text with a separator at its start. -/
def slashed (path : Path) : List Char := if isAbsolute path then path else '/' :: path

theorem prefix_iff_slashed {rule path : Path} (h : isAbsolute rule = isAbsolute path) :
    rule <+: path ↔ slashed rule <+: slashed path := by
  rw [slashed, slashed, h]
  split
  · exact Iff.rfl
  · exact (List.prefix_cons_inj '/').symm

/-- A normal path other than the empty one and `.` is the text of its names. -/
theorem text_of_normal {path : Path} (hnormal : lexicallyNormal path = path)
    (hempty : path ≠ []) (hdot : path ≠ ['.']) :
    (stackOf path).text (isAbsolute path) = path := by
  rw [lexicallyNormal, if_neg hempty] at hnormal
  split at hnormal
  · exact absurd hnormal.symm hdot
  · exact hnormal

/-- A path that is its own normal form is made up of its names, with or without a
separator at the end. -/
theorem slashed_of_normal {path : Path} (hnormal : lexicallyNormal path = path)
    (hempty : path ≠ []) (hdot : path ≠ ['.']) :
    slashed path = body (normalNames path) ∨ slashed path = body (normalNames path ++ [[]]) := by
  have htext := text_of_normal hnormal hempty hdot
  rw [Stack.text] at htext
  cases hnames : (stackOf path).names with
  | nil =>
    -- without names the text is the root directory
    rw [Stack.tail, hnames] at htext
    cases habsolute : isAbsolute path with
    | true =>
      apply Or.inr
      rw [slashed, habsolute, normalNames, hnames]
      simpa [habsolute, join, body] using htext.symm
    | false => exact absurd htext.symm (by simpa [habsolute, join] using hempty)
  | cons top below =>
    have hne : normalNames path ≠ [] := by simp [normalNames, hnames]
    have hslashed : slashed path = body (normalNames path) ++ (stackOf path).tail := by
      rw [← slash_join hne, slashed, normalNames]
      cases habsolute : isAbsolute path with
      | true => simpa [habsolute] using htext.symm
      | false => simpa [habsolute] using htext.symm
    rw [hslashed, Stack.tail, hnames]
    dsimp only
    split
    · exact Or.inr (by rw [body_append]; rfl)
    · exact Or.inl (List.append_nil _)

/-! ## A rule as a prefix of the text -/

/-- Empty, or a separator comes first. -/
def AtBoundary (text : List Char) : Prop := ∀ c ∈ text.head?, c = '/'

/-- A directory spelled the way a rule should be: normal, not empty, not `.`, and with
no separator at its end unless it is the root. -/
structure NormalRule (rule : Path) : Prop where
  normal : lexicallyNormal rule = rule
  nonempty : rule ≠ []
  notDot : rule ≠ ['.']
  bare : rule = ['/'] ∨ rule.getLast? ≠ some '/'

section NormalRule

variable {rule path : Path}

theorem NormalRule.names_ne_nil (hrule : NormalRule rule) (hrelative : isAbsolute rule = false) :
    normalNames rule ≠ [] := by
  intro hnil
  have hslashed := slashed_of_normal hrule.normal hrule.nonempty hrule.notDot
  rw [slashed, hrelative, hnil] at hslashed
  rcases hslashed with h | h
  · exact absurd h (by simp [body])
  · exact hrule.nonempty (by simpa [body] using h)

theorem NormalRule.slashed_eq (hrule : NormalRule rule) (hroot : rule ≠ ['/']) :
    slashed rule = body (normalNames rule) := by
  have hlast : rule.getLast? ≠ some '/' := hrule.bare.resolve_left hroot
  rcases slashed_of_normal hrule.normal hrule.nonempty hrule.notDot with h | h
  · exact h
  · have hslashed : (slashed rule).getLast? = rule.getLast? := by
      rw [slashed]
      split
      · rfl
      · rw [List.getLast?_cons_of_ne_nil hrule.nonempty]
    rw [h, body_append] at hslashed
    exact absurd (by simpa [body] using hslashed.symm) hlast

theorem NormalRule.prefix_of_covers (hrule : NormalRule rule)
    (hpath : lexicallyNormal path = path) (h : Covers rule path) : rule <+: path := by
  obtain ⟨habsolute, hnames⟩ := h
  have hcurrent : ∀ p : Path, p = path → isAbsolute p = false → normalNames p = [] → False := by
    rintro p rfl hrelative hnil
    rw [hnil, List.prefix_nil] at hnames
    exact hrule.names_ne_nil (habsolute.trans hrelative) hnames
  have hempty : path ≠ [] := fun hnil => hcurrent [] hnil.symm rfl rfl
  have hdot : path ≠ ['.'] := fun hdot => hcurrent ['.'] hdot.symm rfl (by decide)
  by_cases hroot : rule = ['/']
  · subst hroot
    cases path with
    | nil => exact absurd rfl hempty
    | cons c path =>
      have hc : c = '/' := by simpa [isAbsolute] using habsolute
      exact hc ▸ ⟨path, rfl⟩
  · rw [prefix_iff_slashed habsolute, hrule.slashed_eq hroot]
    obtain ⟨below, hbelow⟩ := hnames
    rcases slashed_of_normal hpath hempty hdot with h | h
    · exact ⟨body below, by rw [h, ← hbelow, body_append]⟩
    · exact ⟨body (below ++ [[]]), by rw [h, ← hbelow, List.append_assoc, ← body_append]⟩

end NormalRule

/-! ## What the spelling does to a rule -/

section Spelling

variable {rule path : Path}

/-- What stands between the separators of the text, but for the one at its start. -/
def pieces (path : Path) : List (List Char) := (slashed path).tail.splitOn '/'

/-- The path starts with as many plain names, and never goes back. -/
def SpelledOut (path : Path) (count : Nat) : Prop :=
  (∀ name ∈ (pieces path).take count, Plain name) ∧ dotdot ∉ pieces path

instance (text : List Char) : Decidable (AtBoundary text) :=
  inferInstanceAs (Decidable (∀ c ∈ text.head?, c = '/'))

/-- The text of the rule starts that of the path, but the rule is empty, or ends inside a name
of the path, or a `..` follows it. -/
def Overreaches (rule path : Path) : Prop :=
  rule <+: path ∧ (rule = [] ∨
    rule.getLast? ≠ some '/' ∧ ¬AtBoundary (path.drop rule.length) ∨
    dotdot ∈ (path.drop rule.length).splitOn '/')

/-- The rule covers the path, but it is not in its normal form, or the path is not spelled out
as far as the names of the rule go. -/
def Respelled (rule path : Path) : Prop :=
  Covers rule path ∧ ¬(NormalRule rule ∧ SpelledOut path (normalNames rule).length)

theorem slashed_eq_body (path : Path) : slashed path = body (pieces path) := by
  have hne : pieces path ≠ [] := List.splitOn_ne_nil _ _
  have hjoin : join (pieces path) = (slashed path).tail := List.intercalate_splitOn _
  rw [← slash_join hne, hjoin, slashed]
  cases path with
  | nil => rfl
  | cons c path =>
    by_cases hc : c = '/'
    · subst hc
      rfl
    · have hrelative : isAbsolute (c :: path) = false := by simpa [isAbsolute] using hc
      rw [hrelative]
      rfl

theorem normalNames_of_pieces (h : dotdot ∉ pieces path) :
    normalNames path = (pieces path).filter fun name => !isIdle name := by
  have hstack : (stackOf path).names =
      ((pieces path).filter fun name => !isIdle name).reverse := by
    rw [stackOf, pieces, slashed] at *
    cases habsolute : isAbsolute path with
    | false =>
      rw [habsolute] at h
      exact (foldl_push_names h).trans (List.append_nil _)
    | true =>
      rw [habsolute] at h
      cases path with
      | nil => cases habsolute
      | cons c path =>
        have hc : c = '/' := by simpa [isAbsolute] using habsolute
        have hsplit : (c :: path).splitOn '/' = [] :: path.splitOn '/' := by
          rw [hc]
          exact List.splitOn_append_cons_self_of_not_mem List.not_mem_nil path
        rw [hsplit, List.foldl_cons]
        exact (foldl_push_names h).trans (List.append_nil _)
  rw [normalNames, hstack, List.reverse_reverse]

/-- A normal rule that covers a path stands at the start of its text if this is spelled out. -/
theorem NormalRule.prefix_of_spelledOut (hrule : NormalRule rule) (h : Covers rule path)
    (hspelled : SpelledOut path (normalNames rule).length) : rule <+: path := by
  obtain ⟨habsolute, hnames⟩ := h
  obtain ⟨hplain, hback⟩ := hspelled
  by_cases hroot : rule = ['/']
  · subst hroot
    cases path with
    | nil => cases habsolute
    | cons c path =>
      have hc : c = '/' := by simpa [isAbsolute] using habsolute
      exact hc ▸ ⟨path, rfl⟩
  · -- the names of the rule are the first pieces of the path
    have hfirst : normalNames rule = (pieces path).take (normalNames rule).length := by
      rw [normalNames_of_pieces hback, List.prefix_iff_eq_take] at hnames
      generalize (normalNames rule).length = count at *
      have hkept : ((pieces path).take count).filter (fun name => !isIdle name) =
          (pieces path).take count := by
        refine List.filter_eq_self.mpr fun name hname => ?_
        rw [(hplain name hname).isIdle]
        rfl
      rw [← List.take_append_drop count (pieces path), List.filter_append, hkept] at hnames
      rw [hnames]
      by_cases hlong : count ≤ (pieces path).length
      · exact List.take_left' (List.length_take_of_le hlong)
      · rw [List.drop_eq_nil_of_le (by omega), List.filter_nil, List.append_nil, List.take_take,
          Nat.min_self]
    rw [prefix_iff_slashed habsolute, hrule.slashed_eq hroot, slashed_eq_body, hfirst]
    obtain ⟨rest, hrest⟩ := List.take_prefix (normalNames rule).length (pieces path)
    exact ⟨body rest, by rw [← body_append, hrest]⟩

theorem isAbsolute_eq (h : rule <+: path) (hrule : rule ≠ []) :
    isAbsolute rule = isAbsolute path := by
  obtain ⟨rest, rfl⟩ := h
  cases rule with
  | nil => exact absurd rfl hrule
  | cons c rule => rfl

/-- The names of a text that continues that of a directory without going back. -/
theorem normalNames_continue {front rest : Path} {absolute : Bool}
    (habsolute : isAbsolute (front ++ '/' :: rest) = absolute)
    (hback : dotdot ∉ rest.splitOn '/') :
    normalNames (front ++ '/' :: rest) =
      ((front.splitOn '/').foldl (Stack.push absolute) {}).names.reverse ++
        (rest.splitOn '/').filter fun name => !isIdle name := by
  rw [normalNames, stackOf_continue habsolute, foldl_push_names hback, List.reverse_append,
    List.reverse_reverse]

/-- A rule whose text starts that of a path covers it unless it reaches too far. -/
theorem covers_of_prefix (h : rule <+: path) (hreach : ¬Overreaches rule path) :
    Covers rule path := by
  have hbound := not_or.mp fun hbad => hreach ⟨h, hbad⟩
  have hends := not_or.mp hbound.2
  have habsolute := isAbsolute_eq h hbound.1
  refine ⟨habsolute, ?_⟩
  obtain ⟨rest, rfl⟩ := h
  rw [List.drop_left] at hends
  by_cases hslash : rule.getLast? = some '/'
  · -- both continue the text before the last separator of the rule
    obtain ⟨front, rfl⟩ := List.getLast?_eq_some_iff.mp hslash
    rw [List.append_assoc, List.singleton_append] at habsolute ⊢
    have hnothing : ([].splitOn '/').filter (fun name => !isIdle name) = [] := rfl
    rw [normalNames_continue habsolute (by decide), normalNames_continue rfl hends.2, hnothing,
      List.append_nil]
    exact List.prefix_append _ _
  · have hboundary : AtBoundary rest := by
      by_contra hinside
      exact hends.1 ⟨hslash, hinside⟩
    cases rest with
    | nil => rw [List.append_nil]
    | cons c rest =>
      obtain rfl : c = '/' := hboundary c rfl
      have hback : dotdot ∉ rest.splitOn '/' := by
        have hsplit : ('/' :: rest).splitOn '/' = [] :: rest.splitOn '/' :=
          List.splitOn_append_cons_self_of_not_mem List.not_mem_nil rest
        rw [hsplit] at hends
        exact fun hmem => hends.2 (List.mem_cons_of_mem _ hmem)
      rw [normalNames_continue rfl hback, ← habsolute]
      exact List.prefix_append _ _

end Spelling

/-! ## Joining a plain path -/

/-- The second path lies beneath the first one and is not the same. -/
def StrictlyBeneath (root path : Path) : Prop :=
  Covers root path ∧ normalNames root ≠ normalNames path

theorem isAbsolute_of_plain {path : Path} (h : ∀ n ∈ path.splitOn '/', Plain n) :
    isAbsolute path = false := by
  cases path with
  | nil => rfl
  | cons c path =>
    by_contra habsolute
    have hc : c = '/' := by simpa [isAbsolute] using habsolute
    have hsplit : (c :: path).splitOn '/' = [] :: path.splitOn '/' := by
      rw [hc]
      exact List.splitOn_append_cons_self_of_not_mem List.not_mem_nil path
    exact (h [] (by rw [hsplit]; exact List.mem_cons_self ..)).1 rfl

theorem isAbsolute_append {base path : Path} (h : isAbsolute path = false) :
    isAbsolute (append base path) = isAbsolute base := by
  rw [append, h, if_neg Bool.false_ne_true]
  cases base with
  | nil => exact h
  | cons c base => split <;> rfl

/-- A plain path joined to a directory adds its names to those of the directory. -/
theorem normalNames_append {base path : Path} (h : ∀ n ∈ path.splitOn '/', Plain n) :
    normalNames (append base path) = normalNames base ++ path.splitOn '/' := by
  have hrelative := isAbsolute_of_plain h
  have habsolute : isAbsolute (append base path) = isAbsolute base := isAbsolute_append hrelative
  -- it is enough to compare the stacks, which have the last name first
  suffices hnames : (stackOf (append base path)).names =
      (path.splitOn '/').reverse ++ (stackOf base).names by
    rw [normalNames, hnames, List.reverse_append, List.reverse_reverse]
    rfl
  rw [append, hrelative, if_neg Bool.false_ne_true] at habsolute ⊢
  by_cases hbase : base = []
  · rw [if_pos (Or.inl hbase), hbase, List.nil_append, stackOf, foldl_push_of_plain h]
    rfl
  by_cases hslash : base.getLast? = some '/'
  · obtain ⟨front, rfl⟩ := List.getLast?_eq_some_iff.mp hslash
    rw [if_pos (Or.inr hslash), List.append_assoc, List.singleton_append] at habsolute ⊢
    have hdirectory : stackOf (front ++ ['/']) =
        ((front.splitOn '/').foldl (Stack.push (isAbsolute (front ++ ['/']))) {}).push
          (isAbsolute (front ++ ['/'])) [] := by
      rw [stackOf_continue rfl]
      rfl
    rw [stackOf_continue habsolute, foldl_push_of_plain h, hdirectory, Stack.push,
      if_pos (Or.inl rfl)]
  · rw [if_neg (by simp [hbase, hslash])] at habsolute ⊢
    rw [stackOf_continue habsolute, foldl_push_of_plain h]
    rfl

theorem strictlyBeneath_append {path : Path} (root : Path) (h : ∀ n ∈ path.splitOn '/', Plain n) :
    StrictlyBeneath root (append root path) := by
  have hnames : normalNames (append root path) = normalNames root ++ path.splitOn '/' :=
    normalNames_append h
  refine ⟨⟨(isAbsolute_append (isAbsolute_of_plain h)).symm, ?_⟩, ?_⟩
  · rw [hnames]
    exact List.prefix_append ..
  · intro heq
    rw [hnames, List.self_eq_append_right] at heq
    exact List.splitOn_ne_nil '/' path heq

end LexicalPath
