import Mathlib.Data.List.Infix

/-!
# Trees of directories

A tree says what is at each place, where a place is the list of names from the root on:
a directory, or a leaf with a value. Whatever is in a tree lies in a directory of it.

Directories are made, trees are put at free places, and what lies at or below a place is
removed, but for what cannot be. `Keeps` is the frame of all three: the places at which a
tree still has what it had before.
-/

namespace FileTree

inductive Entry (ε : Type) where
  | directory
  | leaf (value : ε)
  deriving DecidableEq, Repr

structure Tree (α ε : Type) where
  entries : List α → Option (Entry ε)
  root : entries [] = some .directory
  closed : ∀ place name, entries (place ++ [name]) ≠ none → entries place = some .directory

namespace Tree

variable {α ε : Type} [DecidableEq α]

/-- The tree with nothing in its root. -/
instance : EmptyCollection (Tree α ε) where
  emptyCollection :=
    { entries := fun place => if place = [] then some .directory else none
      root := rfl
      closed := by
        intro place name h
        rw [if_neg (by simp)] at h
        exact absurd rfl h }

/-- Everything on the way to a place is a directory, or there is nothing. -/
def canMake (tree : Tree α ε) (place : List α) : Bool :=
  place.inits.all fun front =>
    match tree.entries front with
    | none | some .directory => true
    | some (.leaf _) => false

omit [DecidableEq α] in
/-- There is something at every place on the way to something. -/
theorem entries_on_way {tree : Tree α ε} {place other : List α} (h : place <+: other)
    (hother : tree.entries other ≠ none) : tree.entries place ≠ none := by
  induction other using List.reverseRecOn with
  | nil =>
    rw [List.prefix_nil.mp h]
    exact hother
  | append_singleton front name ih =>
    rcases List.prefix_concat_iff.mp h with hsame | hfront
    · rw [hsame]
      exact hother
    · have hdirectory := tree.closed front name hother
      exact ih hfront (by rw [hdirectory]; nofun)

omit [DecidableEq α] in
theorem entries_of_canMake {tree : Tree α ε} {place front : List α}
    (h : tree.canMake place = true) (hfront : front <+: place) (hsome : tree.entries front ≠ none) :
    tree.entries front = some .directory := by
  have hall := List.all_eq_true.mp h front ((List.mem_inits _ _).mpr hfront)
  cases hentry : tree.entries front with
  | none => exact absurd hentry hsome
  | some entry =>
    rw [hentry] at hall
    cases entry with
    | directory => rfl
    | leaf value => cases hall

/-- The tree with all directories on the way to a place, and at it. -/
def makeDirectories (tree : Tree α ε) (place : List α) : Tree α ε where
  entries other :=
    match tree.entries other with
    | some entry => some entry
    | none => if tree.canMake place && other.isPrefixOf place then some .directory else none
  root := by rw [tree.root]
  closed := by
    intro front name h
    cases hentry : tree.entries (front ++ [name]) with
    | some entry =>
      have hfront := tree.closed front name (by rw [hentry]; nofun)
      rw [hfront]
    | none =>
      rw [hentry] at h
      dsimp only at h
      by_cases hmade : (tree.canMake place && (front ++ [name]).isPrefixOf place) = true
      · rw [Bool.and_eq_true, List.isPrefixOf_iff_prefix] at hmade
        obtain ⟨hcan, hunder⟩ := hmade
        have hfront : front <+: place := (List.prefix_append front [name]).trans hunder
        cases hsome : tree.entries front with
        | none =>
          dsimp only
          rw [if_pos]
          rw [hcan, Bool.true_and, List.isPrefixOf_iff_prefix]
          exact hfront
        | some entry =>
          have hdirectory := entries_of_canMake hcan hfront (by rw [hsome]; nofun)
          rw [hsome] at hdirectory
          exact hdirectory
      · rw [if_neg hmade] at h
        exact absurd rfl h

/-- There is nothing at a place, and it lies in a directory. -/
def isFree (tree : Tree α ε) (place : List α) : Bool :=
  (tree.entries place).isNone &&
    match tree.entries place.dropLast with
    | some .directory => true
    | _ => false

omit [DecidableEq α] in
theorem isFree_iff {tree : Tree α ε} {place : List α} :
    tree.isFree place = true ↔
      tree.entries place = none ∧ tree.entries place.dropLast = some .directory := by
  rw [isFree, Bool.and_eq_true, Option.isNone_iff_eq_none]
  refine and_congr_right fun _ => ?_
  cases tree.entries place.dropLast with
  | none => simp
  | some entry => cases entry <;> simp

/-- The tree with another one at a free place. -/
def graft (tree : Tree α ε) (place : List α) (image : Tree α ε) : Tree α ε where
  entries other :=
    if tree.isFree place && place.isPrefixOf other then image.entries (other.drop place.length)
    else tree.entries other
  root := by
    rw [if_neg]
    · exact tree.root
    · rw [Bool.and_eq_true, isFree_iff, List.isPrefixOf_iff_prefix, List.prefix_nil]
      rintro ⟨⟨hnone, _⟩, rfl⟩
      rw [tree.root] at hnone
      cases hnone
  closed := by
    intro front name h
    by_cases hfront : (tree.isFree place && place.isPrefixOf front) = true
    · rw [if_pos hfront]
      rw [Bool.and_eq_true, List.isPrefixOf_iff_prefix] at hfront
      obtain ⟨hfree, hunder⟩ := hfront
      have hbehind : place <+: front ++ [name] := hunder.trans (List.prefix_append front [name])
      rw [if_pos (by rw [hfree, Bool.true_and, List.isPrefixOf_iff_prefix]; exact hbehind),
        List.drop_append_of_le_length hunder.length_le] at h
      exact image.closed _ name h
    · rw [if_neg hfront]
      by_cases hplace : (tree.isFree place && place.isPrefixOf (front ++ [name])) = true
      · rw [Bool.and_eq_true, isFree_iff, List.isPrefixOf_iff_prefix, List.prefix_concat_iff] at hplace
        rw [Bool.and_eq_true, isFree_iff, List.isPrefixOf_iff_prefix] at hfront
        obtain ⟨hfree, hsame | hbehind⟩ := hplace
        · rw [hsame, List.dropLast_concat] at hfree
          exact hfree.2
        · exact absurd ⟨hfree, hbehind⟩ hfront
      · rw [if_neg hplace] at h
        exact tree.closed front name h

/-- The tree without what is at or below a place; the root, and what has something to be left
at or below it, stay. -/
def removeAll (tree : Tree α ε) (left : List (List α)) (place : List α) : Tree α ε where
  entries other :=
    if place.isPrefixOf other && !other.isEmpty && !left.any other.isPrefixOf then none
    else tree.entries other
  root := by
    rw [List.isEmpty_nil, Bool.not_true, Bool.and_false, Bool.false_and, if_neg Bool.false_ne_true]
    exact tree.root
  closed := by
    intro front name h
    by_cases hname : (place.isPrefixOf (front ++ [name]) && !(front ++ [name]).isEmpty &&
        !left.any (front ++ [name]).isPrefixOf) = true
    · rw [if_pos hname] at h
      exact absurd rfl h
    · rw [if_neg hname] at h
      have hfront := tree.closed front name h
      rw [if_neg]
      · exact hfront
      · intro hremoved
        refine hname ?_
        simp only [Bool.and_eq_true, Bool.not_eq_true', List.any_eq_false,
          List.isPrefixOf_iff_prefix] at hremoved ⊢
        obtain ⟨⟨hunder, _⟩, hleft⟩ := hremoved
        refine ⟨⟨hunder.trans (List.prefix_append _ _), by simp⟩, fun kept hkept hbelow => ?_⟩
        exact hleft kept hkept ((List.prefix_append _ _).trans hbelow)

/-! ## What stays as it is -/

/-- At these places a tree has what another one had there. -/
def Keeps (away : List α → Prop) (tree tree' : Tree α ε) : Prop :=
  ∀ place entry, away place → tree.entries place = some entry → tree'.entries place = some entry

section Keeps

variable {away : List α → Prop} {tree tree' tree'' : Tree α ε} {place : List α}

omit [DecidableEq α]

theorem Keeps.refl (away : List α → Prop) (tree : Tree α ε) : Keeps away tree tree :=
  fun _ _ _ h => h

theorem Keeps.trans (h : Keeps away tree tree') (h' : Keeps away tree' tree'') :
    Keeps away tree tree'' :=
  fun place entry haway hentry => h' place entry haway (h place entry haway hentry)

end Keeps

section Operations

variable {away : List α → Prop} {tree : Tree α ε} {place : List α}

theorem keeps_makeDirectories (away : List α → Prop) (tree : Tree α ε) (place : List α) :
    Keeps away tree (tree.makeDirectories place) := by
  intro other entry _ hentry
  rw [makeDirectories]
  dsimp only
  rw [hentry]

theorem keeps_graft (away : List α → Prop) (tree : Tree α ε) (place : List α)
    (image : Tree α ε) : Keeps away tree (tree.graft place image) := by
  intro other entry _ hentry
  rw [graft]
  dsimp only
  rw [if_neg]
  · exact hentry
  · -- nothing is below a place where there is nothing
    rw [Bool.and_eq_true, isFree_iff, List.isPrefixOf_iff_prefix]
    rintro ⟨⟨hnone, _⟩, hunder⟩
    exact absurd hnone (entries_on_way hunder (by rw [hentry]; nofun))

theorem keeps_removeAll (tree : Tree α ε) (left : List (List α))
    (haway : ∀ other, away other → ¬place <+: other) :
    Keeps away tree (tree.removeAll left place) := by
  intro other entry hother hentry
  rw [removeAll]
  dsimp only
  rw [if_neg]
  · exact hentry
  · rw [Bool.and_eq_true, Bool.and_eq_true, List.isPrefixOf_iff_prefix]
    exact fun h => haway other hother h.1.1

end Operations

end Tree

end FileTree
