import ExeCell.Lib.PathWalk

/-!
# Walking through symbolic links

A walk on a file system that has links: a link is replaced by its target, read from the
directory that the link is in, and the walk goes on from there. A path with too many links
leads nowhere, like one through a directory that cannot be searched; both are errors.

* `weaklyCanonical` and `relative` are those of `std::filesystem`.
* `weaklyCanonical_of_real`: without a link on it a path is its own canonical form.
* `relative_append`: below its base a place is called by the names from there on.
-/

namespace LexicalPath

/-- The names that lead to a place from the root directory. -/
abbrev Place := List (List Char)

/-- What a walk sees at a place. -/
inductive Seen where
  /-- A directory, and whether it can be searched. -/
  | directory (search : Bool)
  | symlink (target : Path)
  | other
  deriving DecidableEq, Repr

/-- Where a walk stops that follows no link. -/
inductive Stop where
  | arrived (place : Place)
  /-- At a link in the directory, with the names behind it. -/
  | link (dir : Place) (target : Path) (names : List (List Char))
  | nowhere
  | denied
  deriving DecidableEq, Repr

/-- Where a path leads. -/
inductive Led where
  | to (place : Place)
  | nowhere
  /-- There is an error, and it is not known where the path leads. -/
  | denied
  deriving DecidableEq, Repr

/-- The walk up to the first link. -/
def walkNames (look : Place → Option Seen) (dir : Place) : List (List Char) → Stop
  | [] => .arrived dir
  | name :: names =>
    match look dir with
    | some (.directory true) =>
      match look (step dir name) with
      | none => .nowhere
      | some (.symlink target) => .link dir target names
      | some _ => walkNames look (step dir name) names
    | some (.directory false) => .denied
    | _ => .nowhere

/-- The walk that follows up to so many links. -/
def follow (look : Place → Option Seen) (links : Nat) (dir : Place) (names : List (List Char)) :
    Led :=
  match walkNames look dir names with
  | .arrived place => .to place
  | .nowhere => .nowhere
  | .denied => .denied
  | .link dir target names =>
    match links with
    | 0 => .denied
    | links + 1 =>
      follow look links (if isAbsolute target then [] else dir) (target.splitOn '/' ++ names)

/-- The loop over the leading names that exist: the canonical form of those, and the others
behind it. -/
def canonicalLead (lead : List (List Char) → Led) (place : Place) (done : List (List Char)) :
    List (List Char) → Option Place
  | [] => some place
  | name :: names =>
    match lead (done ++ [name]) with
    | .to next => canonicalLead lead next (done ++ [name]) names
    | .nowhere => some ((name :: names).foldl step place)
    | .denied => none

/-- `weakly_canonical`, of the names below a base that is canonical. There is no answer when it
throws. -/
def weaklyCanonical (look : Place → Option Seen) (links : Nat) (base : Place)
    (names : List (List Char)) : Option Place :=
  match follow look links base names with
  | .to place => some place
  | .nowhere => canonicalLead (follow look links base) base [] names
  | .denied => none

/-- The names that lead from the base to the place. -/
def relativeNames : Place → Place → List (List Char)
  | place, [] => place
  | [], base => base.map fun _ => dotdot
  | name :: place, other :: base =>
    if name = other then relativeNames place base
    else (other :: base).map (fun _ => dotdot) ++ name :: place

/-- `lexically_relative`, for two places. -/
def relative (place base : Place) : Path :=
  if relativeNames place base = [] then ['.'] else join (relativeNames place base)

section Real

variable {look : Place → Option Seen} {dir base : Place} {names : List (List Char)}

/-- No name on the way is that of a link, and all but the last are those of directories. -/
structure Real (look : Place → Option Seen) (dir : Place) (names : List (List Char)) : Prop where
  plain : ∀ name ∈ names, Plain name
  directories : ∀ front last rest, names = front ++ last :: rest →
    ∃ search, look (dir ++ front) = some (.directory search)
  found : ∃ seen, look (dir ++ names) = some seen ∧ ∀ target, seen ≠ .symlink target

theorem Real.tail {name : List Char} (h : Real look dir (name :: names)) :
    Real look (dir ++ [name]) names where
  plain := (List.forall_mem_cons.mp h.plain).2
  directories := by
    intro front last rest heq
    rw [List.append_assoc]
    exact h.directories (name :: front) last rest (congrArg (name :: ·) heq)
  found := by
    rw [List.append_assoc]
    exact h.found

/-- The first name of such a way is no link. -/
theorem Real.head {name : List Char} (h : Real look dir (name :: names)) :
    ∃ seen, look (dir ++ [name]) = some seen ∧ ∀ target, seen ≠ .symlink target := by
  cases names with
  | nil => exact h.found
  | cons next names =>
    obtain ⟨search, hsearch⟩ := h.directories [name] next names rfl
    exact ⟨.directory search, hsearch, nofun⟩

theorem step_of_plain {name : List Char} (h : Plain name) : step dir name = dir ++ [name] := by
  rw [step, if_neg, if_neg h.2.2]
  intro hstays
  exact hstays.elim h.1 h.2.1

/-- The walk arrives where the names say, if it may. -/
theorem walkNames_of_real (h : Real look dir names) :
    walkNames look dir names = .arrived (dir ++ names) ∨ walkNames look dir names = .denied := by
  induction names generalizing dir with
  | nil => exact Or.inl (congrArg Stop.arrived (List.append_nil dir).symm)
  | cons name names ih =>
    obtain ⟨search, hsearch⟩ := h.directories [] name names rfl
    rw [List.append_nil] at hsearch
    rw [walkNames, hsearch]
    cases search with
    | false => exact Or.inr rfl
    | true =>
      obtain ⟨seen, hseen, hlink⟩ := h.head
      have hrest := ih h.tail
      rw [List.append_assoc] at hrest
      rw [step_of_plain (h.plain name List.mem_cons_self), hseen]
      cases seen with
      | directory search => exact hrest
      | other => exact hrest
      | symlink target => exact absurd rfl (hlink target)

theorem weaklyCanonical_of_real (h : Real look base names) (links : Nat) :
    weaklyCanonical look links base names = some (base ++ names) ∨
      weaklyCanonical look links base names = none := by
  rw [weaklyCanonical, follow.eq_def]
  obtain harrived | hdenied := walkNames_of_real h
  · rw [harrived]
    exact Or.inl rfl
  · rw [hdenied]
    exact Or.inr rfl

end Real

theorem relativeNames_append (base names : Place) : relativeNames (base ++ names) base = names := by
  induction base with
  | nil => cases names <;> rfl
  | cons name base ih =>
    rw [List.cons_append, relativeNames, if_pos rfl]
    exact ih

theorem relative_append {base names : Place} (h : names ≠ []) :
    relative (base ++ names) base = join names := by
  rw [relative, relativeNames_append, if_neg h]

end LexicalPath
