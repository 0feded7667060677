import Mathlib.Data.List.DropRight
import ExeCell.Lib.LexicalPath

/-!
# Walking a path

A path is resolved name by name from a directory: `.` stays, `..` goes one directory up and
stays at the root, and any other name goes down. This is what a kernel does where the names
are no symbolic links.

* `walk_of_absolute`: the normal form of an absolute path is the place it leads to.
* `walk_of_relative`: a relative path climbs out of its directory some levels and then
  descends.
* `walk_lexicallyNormal`: normalisation does not change the place.
-/

namespace LexicalPath

/-- The directory after one name; a directory is the list of names that lead to it. -/
def step (dir : List (List Char)) (name : List Char) : List (List Char) :=
  if name = [] ∨ name = ['.'] then dir
  else if name = dotdot then dir.dropLast
  else dir ++ [name]

/-- The place the path leads to from the directory. -/
def walk (dir : List (List Char)) (path : Path) : List (List Char) :=
  (path.splitOn '/').foldl step dir

/-- The levels that a relative path climbs above its directory. -/
def climb (path : Path) : Nat := ((normalNames path).takeWhile (· = dotdot)).length

/-- The names that a relative path descends after it. -/
def descent (path : Path) : List (List Char) := (normalNames path).dropWhile (· = dotdot)

/-! ## Absolute paths -/

theorem push_absolute {stack : Stack} {name : List Char} (h : ∀ n ∈ stack.names, Plain n) :
    (stack.push true name).names.reverse = step stack.names.reverse name ∧
      ∀ n ∈ (stack.push true name).names, Plain n := by
  rw [Stack.push, step]
  split
  · exact ⟨rfl, h⟩
  · rename_i hstays
    split
    · cases hnames : stack.names with
      | nil => exact ⟨by simp [hnames], by simp [hnames]⟩
      | cons top below =>
        rw [hnames, List.forall_mem_cons] at h
        dsimp only
        rw [if_neg h.1.2.2]
        exact ⟨by simp, h.2⟩
    · rename_i hdown
      rw [not_or] at hstays
      exact ⟨List.reverse_cons, List.forall_mem_cons.mpr ⟨⟨hstays.1, hstays.2, hdown⟩, h⟩⟩

theorem foldl_push_absolute {pieces : List (List Char)} {stack : Stack}
    (h : ∀ n ∈ stack.names, Plain n) :
    (pieces.foldl (Stack.push true) stack).names.reverse =
        pieces.foldl step stack.names.reverse ∧
      ∀ n ∈ (pieces.foldl (Stack.push true) stack).names, Plain n := by
  induction pieces generalizing stack with
  | nil => exact ⟨rfl, h⟩
  | cons piece pieces ih =>
    obtain ⟨hstep, hplain⟩ := @push_absolute stack piece h
    rw [List.foldl_cons, List.foldl_cons, ← hstep]
    exact ih hplain

theorem walk_of_absolute {path : Path} (h : isAbsolute path = true) :
    walk [] path = normalNames path := by
  have hfold := @foldl_push_absolute (path.splitOn '/') {} (by simp)
  rw [walk, normalNames, stackOf, h, hfold.1]
  rfl

theorem plain_of_absolute {path : Path} (h : isAbsolute path = true) :
    ∀ n ∈ normalNames path, Plain n := by
  have hfold := @foldl_push_absolute (path.splitOn '/') {} (by simp)
  intro n hn
  rw [normalNames, stackOf, h, List.mem_reverse] at hn
  exact hfold.2 n hn

/-! ## Relative paths -/

/-- The stack of a relative path: the names of its descent over the `..` of its climb. -/
def Climbs (stack : Stack) (levels : Nat) (names : List (List Char)) : Prop :=
  stack.names = names.reverse ++ List.replicate levels dotdot ∧ dotdot ∉ names

theorem push_relative {stack : Stack} {name : List Char} {levels : Nat}
    {names : List (List Char)} (h : Climbs stack levels names) :
    ∃ levels' names', Climbs (stack.push false name) levels' names' ∧
      ∀ dir : List (List Char),
        step (dir.rdrop levels ++ names) name = dir.rdrop levels' ++ names' := by
  obtain ⟨hnames, hdown⟩ := h
  by_cases hstays : name = [] ∨ name = ['.']
  · rw [Stack.push, if_pos hstays]
    exact ⟨levels, names, ⟨hnames, hdown⟩, fun dir => by rw [step, if_pos hstays]⟩
  by_cases hup : name = dotdot
  · rw [Stack.push, if_neg hstays, if_pos hup]
    rcases List.eq_nil_or_concat' names with rfl | ⟨front, last, rfl⟩
    · -- there is nothing left to go back on, so the climb is one level longer
      refine ⟨levels + 1, [], ⟨?_, List.not_mem_nil⟩, fun dir => ?_⟩
      · rw [List.reverse_nil, List.nil_append] at hnames
        rw [hnames]
        cases levels with
        | zero => rfl
        | succ levels =>
          rw [List.replicate_succ]
          dsimp only
          rw [if_pos rfl, List.reverse_nil, List.nil_append]
          rfl
      · rw [step, if_neg hstays, if_pos hup, List.append_nil, List.append_nil,
          List.dropLast_eq_take, List.rdrop, List.rdrop, List.take_take, List.length_take]
        congr 1
        omega
    · rw [List.reverse_append, List.reverse_singleton, List.singleton_append,
        List.cons_append] at hnames
      rw [List.mem_append, List.mem_singleton, not_or] at hdown
      refine ⟨levels, front, ⟨?_, hdown.1⟩, fun dir => ?_⟩
      · rw [hnames]
        dsimp only
        rw [if_neg (Ne.symm hdown.2)]
      · rw [step, if_neg hstays, if_pos hup, ← List.append_assoc, List.dropLast_concat]
  · rw [Stack.push, if_neg hstays, if_neg hup]
    refine ⟨levels, names ++ [name], ⟨?_, ?_⟩, fun dir => ?_⟩
    · rw [List.reverse_append, List.reverse_singleton, List.singleton_append, List.cons_append,
        ← hnames]
    · rw [List.mem_append, List.mem_singleton, not_or]
      exact ⟨hdown, Ne.symm hup⟩
    · rw [step, if_neg hstays, if_neg hup, List.append_assoc]

theorem foldl_push_relative {pieces : List (List Char)} {stack : Stack} {levels : Nat}
    {names : List (List Char)} (h : Climbs stack levels names) :
    ∃ levels' names', Climbs (pieces.foldl (Stack.push false) stack) levels' names' ∧
      ∀ dir : List (List Char),
        pieces.foldl step (dir.rdrop levels ++ names) = dir.rdrop levels' ++ names' := by
  induction pieces generalizing stack levels names with
  | nil => exact ⟨levels, names, h, fun _ => rfl⟩
  | cons piece pieces ih =>
    obtain ⟨levels₁, names₁, hclimbs, hstep⟩ := @push_relative stack piece levels names h
    obtain ⟨levels₂, names₂, hrest, hwalk⟩ := ih hclimbs
    refine ⟨levels₂, names₂, hrest, fun dir => ?_⟩
    rw [List.foldl_cons, hstep, hwalk]

/-- The place of a relative path, by its climb and its descent. -/
theorem walk_of_relative {path : Path} (h : isAbsolute path = false) (dir : List (List Char)) :
    walk dir path = dir.rdrop (climb path) ++ descent path := by
  obtain ⟨levels, names, ⟨hnames, hdown⟩, hwalk⟩ :=
    @foldl_push_relative (path.splitOn '/') {} 0 [] ⟨rfl, List.not_mem_nil⟩
  have hnormal : normalNames path = List.replicate levels dotdot ++ names := by
    rw [normalNames, stackOf, h, hnames, List.reverse_append, List.reverse_reverse,
      List.reverse_replicate]
  have hall : ∀ n ∈ List.replicate levels dotdot, decide (n = dotdot) = true := by
    intro n hn
    rw [List.eq_of_mem_replicate hn]
    rfl
  have htake : names.takeWhile (· = dotdot) = [] := by
    cases names with
    | nil => rfl
    | cons name names =>
      rw [List.mem_cons, not_or] at hdown
      rw [List.takeWhile_cons, if_neg (by simpa using Ne.symm hdown.1)]
  have hdrop : names.dropWhile (· = dotdot) = names := by
    cases names with
    | nil => rfl
    | cons name names =>
      rw [List.mem_cons, not_or] at hdown
      rw [List.dropWhile_cons, if_neg (by simpa using Ne.symm hdown.1)]
  have hclimb : climb path = levels := by
    rw [climb, hnormal, List.takeWhile_append_of_pos hall, htake, List.append_nil,
      List.length_replicate]
  have hdescent : descent path = names := by
    rw [descent, hnormal, List.dropWhile_append_of_pos hall, hdrop]
  rw [hclimb, hdescent, ← hwalk dir, List.rdrop_zero, List.append_nil, walk]

/-! ## Normal forms -/

theorem splitOn_body {names : List (List Char)} (h : ∀ n ∈ names, '/' ∉ n) :
    (body names).splitOn '/' = [] :: names := by
  have hrest : ∀ name : List Char, '/' ∉ name →
      (name ++ body names).splitOn '/' = name :: names := by
    induction names with
    | nil =>
      intro name hname
      rw [body, List.flatMap_nil, List.append_nil]
      exact List.splitOn_eq_singleton hname
    | cons next names ih =>
      intro name hname
      rw [List.forall_mem_cons] at h
      rw [body_cons, List.cons_append, List.splitOn_append_cons_self_of_not_mem hname,
        ih h.2 next h.1]
  exact hrest [] List.not_mem_nil

theorem foldl_step_of_plain {dir names : List (List Char)} (h : ∀ n ∈ names, Plain n) :
    names.foldl step dir = dir ++ names := by
  induction names generalizing dir with
  | nil => rw [List.foldl_nil, List.append_nil]
  | cons name names ih =>
    rw [List.forall_mem_cons] at h
    have hdown : step dir name = dir ++ [name] := by
      rw [step, if_neg (by rintro (hnil | hdot); exacts [h.1.1 hnil, h.1.2.1 hdot]),
        if_neg h.1.2.2]
    rw [List.foldl_cons, hdown, ih h.2, List.append_assoc, List.singleton_append]

/-- Plain names written out lead to the place of that name. -/
theorem walk_body {names : List (List Char)} (h : ∀ n ∈ names, Plain n)
    (hnames : ∀ n ∈ names, '/' ∉ n) : walk [] (body names) = names := by
  rw [walk, splitOn_body hnames, List.foldl_cons, foldl_step_of_plain h]
  rfl

/-- A separator at the end of a path does not matter. -/
theorem walk_body_slash {names : List (List Char)} (h : ∀ n ∈ names, Plain n)
    (hnames : ∀ n ∈ names, '/' ∉ n) : walk [] (body (names ++ [[]])) = names := by
  rw [walk, splitOn_body, List.foldl_cons, List.foldl_append, foldl_step_of_plain h]
  · rfl
  · intro n hn
    rcases List.mem_append.mp hn with hn | hn
    · exact hnames n hn
    · rw [List.mem_singleton.mp hn]
      exact List.not_mem_nil

/-- The normal form of an absolute path is made up of its names. -/
theorem lexicallyNormal_absolute {path : Path} (h : isAbsolute path = true) :
    lexicallyNormal path = body (normalNames path) ∧ normalNames path ≠ [] ∨
      lexicallyNormal path = body (normalNames path ++ [[]]) := by
  have hne : path ≠ [] := by
    rintro rfl
    cases h
  have htext : lexicallyNormal path = (stackOf path).text true := by
    rw [lexicallyNormal, if_neg hne, h, if_neg (by simp [Stack.text])]
  rw [htext, Stack.text, Stack.tail, if_pos rfl, List.singleton_append]
  cases hnames : (stackOf path).names with
  | nil =>
    apply Or.inr
    simp [normalNames, hnames, join, body]
  | cons top below =>
    have hnormal : normalNames path = (top :: below).reverse := by rw [normalNames, hnames]
    have hnil : normalNames path ≠ [] := by simp [hnormal]
    rw [← hnormal, slash_join hnil]
    dsimp only
    split
    · exact Or.inr (by rw [body_append]; rfl)
    · exact Or.inl ⟨List.append_nil _, hnil⟩

theorem isAbsolute_lexicallyNormal {path : Path} (h : isAbsolute path = true) :
    isAbsolute (lexicallyNormal path) = true := by
  have hbody : ∀ names : List (List Char), names ≠ [] → isAbsolute (body names) = true := by
    intro names hne
    cases names with
    | nil => exact absurd rfl hne
    | cons name names => rfl
  rcases lexicallyNormal_absolute h with ⟨heq, hne⟩ | heq
  · rw [heq]
    exact hbody _ hne
  · rw [heq]
    exact hbody _ (by simp)

/-- Normalisation keeps the place of an absolute path. -/
theorem walk_lexicallyNormal {path : Path} (h : isAbsolute path = true) :
    walk [] (lexicallyNormal path) = walk [] path := by
  have hplain := plain_of_absolute h
  have hnames : ∀ n ∈ normalNames path, '/' ∉ n := fun n hn => (isName_of_mem_normalNames hn).2
  rw [walk_of_absolute h]
  rcases lexicallyNormal_absolute h with ⟨heq, _⟩ | heq
  · rw [heq, walk_body hplain hnames]
  · rw [heq, walk_body_slash hplain hnames]

/-- A relative path joined to a directory leads from that directory to its place. -/
theorem walk_append {base path : Path} (hpath : isAbsolute path = false) :
    walk [] (append base path) = walk (walk [] base) path := by
  rw [append, hpath, if_neg Bool.false_ne_true]
  by_cases hbase : base = []
  · rw [if_pos (Or.inl hbase), hbase]
    rfl
  by_cases hslash : base.getLast? = some '/'
  · obtain ⟨front, rfl⟩ := List.getLast?_eq_some_iff.mp hslash
    rw [if_pos (Or.inr hslash), List.append_assoc, List.singleton_append, walk,
      List.splitOn_append_cons_self, List.foldl_append, walk, walk,
      List.splitOn_append_cons_self, List.foldl_append]
    rfl
  · rw [if_neg (by simp [hbase, hslash]), walk, List.splitOn_append_cons_self,
      List.foldl_append, walk, walk]

end LexicalPath
