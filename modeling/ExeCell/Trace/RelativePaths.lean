import ExeCell.Lib.PathWalk
import ExeCell.Trace.Decoder

/-!
# The meaning of a resolved path

`resolve_path` puts a relative path behind the symbolic link `/proc/<pid>/cwd` or
`/proc/<pid>/fd/<n>` and normalises the result as text. A `..` that climbs out of the
directory therefore removes the last name of the link, and not of the directory that the link
stands for (`resolvePath_denotes_iff`).
-/

namespace ExeCell.Trace

open LexicalPath

/-- The names of the link to the directory of a call. -/
def procLink (pid : Pid) (dirfd : Int) : List Text :=
  if dirfd = atFdcwd then ["proc".toList, Text.ofInt pid, "cwd".toList]
  else ["proc".toList, Text.ofInt pid, "fd".toList, Text.ofInt dirfd]

/-- The file a recorded path denotes when the link at its start is read as the directory. -/
def denotes (link dir : List Text) (path : Text) : Option (List Text) :=
  if path = [] then none
  else
    let names := walk [] path
    some (if link <+: names then dir ++ names.drop link.length else names)

/-- The file that the kernel finds for a path relative to the directory; the empty path
names no file. -/
def kernelResolves (dir : List Text) (path : Text) : Option (List Text) :=
  if path = [] then none else some (walk dir path)

/-- The path does not climb out of the directory, or it climbs to where the link and the
directory agree, or it comes back down along names that the two have in common. -/
def KeepsPlace (link dir : List Text) (path : Text) : Prop :=
  climb path = 0 ∨
    if link.rtake (climb path) <+: descent path then
      dir = dir.rdrop (climb path) ++ link.rtake (climb path)
    else dir.rdrop (climb path) = link.rdrop (climb path)

instance (link dir : List Text) (path : Text) : Decidable (KeepsPlace link dir path) :=
  inferInstanceAs (Decidable (_ ∨ _))

/-! ## The link -/

theorem plain_ofInt (value : Int) : Plain (Text.ofInt value) ∧ '/' ∉ Text.ofInt value := by
  have hchars : ∀ c ∈ Text.ofInt value, c.isDigit = true ∨ c = '-' :=
    fun c hc => Text.of_mem_ofInt hc
  have hdot : '.' ∉ Text.ofInt value := fun hmem => by
    have := hchars '.' hmem
    revert this
    decide
  refine ⟨⟨?_, ?_, ?_⟩, ?_⟩
  · rw [Text.ofInt, Int.toString_eq_repr, Int.repr_eq_if]
    split
    · rw [Nat.toList_repr]
      exact Nat.toDigits_ne_nil
    · simp
  · intro heq
    exact hdot (by rw [heq]; exact List.mem_singleton_self _)
  · intro heq
    exact hdot (by rw [heq]; exact List.mem_cons_self ..)
  · intro hmem
    have := hchars '/' hmem
    revert this
    decide

theorem procLink_plain (pid : Pid) (dirfd : Int) :
    ∀ n ∈ procLink pid dirfd, Plain n ∧ '/' ∉ n := by
  have hpid := plain_ofInt pid
  have hfd := plain_ofInt dirfd
  have hwords : ∀ word ∈ ["proc".toList, "cwd".toList, "fd".toList], Plain word ∧ '/' ∉ word := by
    simp only [Plain]
    decide
  rw [procLink]
  split
  · intro n hn
    simp only [List.mem_cons, List.not_mem_nil, or_false] at hn
    rcases hn with rfl | rfl | rfl
    · exact hwords _ (by decide)
    · exact hpid
    · exact hwords _ (by decide)
  · intro n hn
    simp only [List.mem_cons, List.not_mem_nil, or_false] at hn
    rcases hn with rfl | rfl | rfl | rfl
    · exact hwords _ (by decide)
    · exact hpid
    · exact hwords _ (by decide)
    · exact hfd

/-- A relative path is resolved from the link. -/
theorem resolvePath_relative (pid : Pid) (dirfd : Int) {path : Text} (hne : path ≠ [])
    (h : isAbsolute path = false) :
    resolvePath pid dirfd path = lexicallyNormal (append (body (procLink pid dirfd)) path) := by
  have hfirst : path.head? ≠ some '/' := of_decide_eq_false h
  rw [resolvePath, if_neg (by simp [hne, hfirst]), procLink]
  split
  · simp [body]
  · simp [body]

theorem walk_resolvePath (pid : Pid) (dirfd : Int) {path : Text} (hne : path ≠ [])
    (h : isAbsolute path = false) :
    walk [] (resolvePath pid dirfd path) = walk (procLink pid dirfd) path := by
  have hlink := procLink_plain pid dirfd
  have habsolute : isAbsolute (append (body (procLink pid dirfd)) path) = true := by
    rw [isAbsolute_append h, procLink]
    split <;> rfl
  rw [resolvePath_relative pid dirfd hne h, walk_lexicallyNormal habsolute, walk_append h,
    walk_body (fun n hn => (hlink n hn).1) fun n hn => (hlink n hn).2]

theorem isAbsolute_resolvePath (pid : Pid) (dirfd : Int) {path : Text} (hne : path ≠ [])
    (h : isAbsolute path = false) : isAbsolute (resolvePath pid dirfd path) = true := by
  rw [resolvePath_relative pid dirfd hne h]
  apply isAbsolute_lexicallyNormal
  rw [isAbsolute_append h, procLink]
  split <;> rfl

/-! ## The place -/

section Place

variable {link dir names : List Text} {levels : Nat}

theorem rdrop_append_rtake (names : List Text) (levels : Nat) :
    names.rdrop levels ++ names.rtake levels = names := by
  rw [List.rdrop, List.rtake, List.take_append_drop]

/-- After a climb from the link the names still begin with the link when the descent comes
back along the names that were left. -/
theorem link_prefix_iff :
    link <+: link.rdrop levels ++ names ↔ link.rtake levels <+: names := by
  have hlink := rdrop_append_rtake link levels
  calc link <+: link.rdrop levels ++ names
      ↔ link.rdrop levels ++ link.rtake levels <+: link.rdrop levels ++ names := by rw [hlink]
    _ ↔ link.rtake levels <+: names := List.prefix_append_right_inj _

theorem relocated_iff :
    (if link <+: link.rdrop levels ++ names then
        dir ++ (link.rdrop levels ++ names).drop link.length
      else link.rdrop levels ++ names) = dir.rdrop levels ++ names ↔
      levels = 0 ∨
        if link.rtake levels <+: names then dir = dir.rdrop levels ++ link.rtake levels
        else dir.rdrop levels = link.rdrop levels := by
  rcases Nat.eq_zero_or_pos levels with rfl | hpos
  · simp
  rw [or_iff_right (by omega)]
  by_cases hback : link.rtake levels <+: names
  · rw [if_pos (link_prefix_iff.mpr hback), if_pos hback]
    obtain ⟨rest, rfl⟩ := hback
    rw [← List.append_assoc, rdrop_append_rtake, List.drop_left, ← List.append_assoc,
      List.append_cancel_right_eq]
  · rw [if_neg (mt link_prefix_iff.mp hback), if_neg hback, List.append_cancel_right_eq, eq_comm]

end Place

/-- A relative path keeps its meaning exactly when it keeps its place. -/
theorem resolvePath_denotes_iff (pid : Pid) (dirfd : Int) (dir : List Text) (path : Text)
    (h : isAbsolute path = false) :
    denotes (procLink pid dirfd) dir (resolvePath pid dirfd path) = kernelResolves dir path ↔
      KeepsPlace (procLink pid dirfd) dir path := by
  by_cases hne : path = []
  · rw [hne]
    exact iff_of_true rfl (Or.inl rfl)
  have hresolved : resolvePath pid dirfd path ≠ [] := by
    intro hnil
    have habsolute := isAbsolute_resolvePath pid dirfd hne h
    rw [hnil] at habsolute
    cases habsolute
  rw [denotes, if_neg hresolved, kernelResolves, if_neg hne, walk_resolvePath pid dirfd hne h,
    walk_of_relative h, walk_of_relative h, Option.some.injEq, relocated_iff, KeepsPlace]

theorem resolvePath_denotes_iff_beneath :
    denotes (procLink 7 atFdcwd) ["home".toList] (resolvePath 7 atFdcwd "a/../b".toList) =
        kernelResolves ["home".toList] "a/../b".toList ↔
      KeepsPlace (procLink 7 atFdcwd) ["home".toList] "a/../b".toList :=
  resolvePath_denotes_iff 7 atFdcwd ["home".toList] "a/../b".toList (by decide)

/-- From `/home/user` the path `../x` leads to `/home/x`, and is recorded as `/proc/7/x`. -/
theorem climbing_path_moved :
    isAbsolute "../x".toList = false ∧
      resolvePath 7 atFdcwd "../x".toList = "/proc/7/x".toList ∧
      denotes (procLink 7 atFdcwd) ["home".toList, "user".toList]
          (resolvePath 7 atFdcwd "../x".toList) =
        some ["proc".toList, "7".toList, "x".toList] ∧
      kernelResolves ["home".toList, "user".toList] "../x".toList =
        some ["home".toList, "x".toList] := by
  decide +kernel

end ExeCell.Trace
