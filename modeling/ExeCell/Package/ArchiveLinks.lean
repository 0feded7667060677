import Mathlib.Logic.Relation
import ExeCell.Package.ArchivePaths
import ExeCell.Package.ArchiveWalk

/-!
# Links in an archive

The tree that the entries of an archive describe, and the walks along a path in it. A
symbolic link is followed from the directory that it stands in, a hard link stands for
what its target names from the root. A walk that goes up from the root, or meets an
absolute target, has left the root for good (`Place.outside`).

No walk in a list that `list` returns leaves the root (`walk_beneath_of_list`): none of
its steps meets `..` or an absolute target, which both validators keep out.
-/

namespace ExeCell.Package.ArchiveAdapter

open LexicalPath (Plain dotdot isAbsolute)

/-! ## The tree and its walks -/

/-- These names lead to a symbolic link with this target: to the entry of one, or to a
hard link that shares it. -/
inductive SymlinkAt (entries : List Entry) : List Text → Text → Prop
  | entry {entry : Entry} (hmem : entry ∈ entries) (hkind : entry.kind = .symlink) :
    SymlinkAt entries (namesOf entry.path) entry.linkTarget
  | shared {entry : Entry} {target : Text} (hmem : entry ∈ entries)
    (hkind : entry.kind = .hardlink) (htarget : SymlinkAt entries (namesOf entry.linkTarget) target) :
    SymlinkAt entries (namesOf entry.path) target

/-- Where a walk is: in a directory at or beneath the root, named from there, or outside. -/
inductive Place where
  | beneath (names : List Text)
  | outside

structure Walk where
  place : Place
  /-- The components still to go. -/
  pending : List Text

/-- The start at the root with a path. -/
def Walk.start (path : Text) : Walk := { place := .beneath [], pending := path.splitOn '/' }

/-- The walk at the start of a link target that is met in a directory. -/
def Walk.follow (directory : List Text) (target : Text) (rest : List Text) : Walk where
  place := if isAbsolute target then .outside else .beneath directory
  pending := target.splitOn '/' ++ rest

/-- One component of a walk. -/
inductive Step (entries : List Entry) : Walk → Walk → Prop
  | stay {names rest : List Text} {c : Text} (h : c = [] ∨ c = ['.']) :
    Step entries ⟨.beneath names, c :: rest⟩ ⟨.beneath names, rest⟩
  | up {names rest : List Text} {name : Text} :
    Step entries ⟨.beneath (names ++ [name]), dotdot :: rest⟩ ⟨.beneath names, rest⟩
  | leave {rest : List Text} :
    Step entries ⟨.beneath [], dotdot :: rest⟩ ⟨.outside, rest⟩
  | enter {names rest : List Text} {name : Text} (h : Plain name) :
    Step entries ⟨.beneath names, name :: rest⟩ ⟨.beneath (names ++ [name]), rest⟩
  | symlink {names rest : List Text} {name target : Text} (h : Plain name)
    (hlink : SymlinkAt entries (names ++ [name]) target) :
    Step entries ⟨.beneath names, name :: rest⟩ (Walk.follow names target rest)
  | hardlink {names rest : List Text} {name : Text} {entry : Entry} (h : Plain name)
    (hmem : entry ∈ entries) (hkind : entry.kind = .hardlink)
    (hpath : namesOf entry.path = names ++ [name]) :
    Step entries ⟨.beneath names, name :: rest⟩ (Walk.follow [] entry.linkTarget rest)

/-! ## Walks stay beneath the root -/

/-- A target from which a walk cannot leave the root. -/
def SafeTarget (target : Text) : Prop :=
  isAbsolute target = false ∧ ∀ c ∈ target.splitOn '/', c ≠ dotdot

/-- Every link among the entries has a safe target. -/
def SafeLinks (entries : List Entry) : Prop :=
  ∀ entry ∈ entries, entry.kind ≠ .regular → SafeTarget entry.linkTarget

/-- At or beneath the root, with nothing ahead that goes up. -/
def Beneath (walk : Walk) : Prop :=
  (∃ names, walk.place = .beneath names) ∧ ∀ c ∈ walk.pending, c ≠ dotdot

section Walks

variable {entries : List Entry} {walk next : Walk}

theorem SymlinkAt.safeTarget {names : List Text} {target : Text} (hlinks : SafeLinks entries)
    (h : SymlinkAt entries names target) : SafeTarget target := by
  induction h with
  | entry hmem hkind => exact hlinks _ hmem (by rw [hkind]; decide)
  | shared _ _ _ ih => exact ih

theorem beneath_follow {directory rest : List Text} {target : Text} (htarget : SafeTarget target)
    (hrest : ∀ c ∈ rest, c ≠ dotdot) : Beneath (Walk.follow directory target rest) := by
  refine ⟨⟨directory, ?_⟩, ?_⟩
  · rw [Walk.follow, htarget.1]
    rfl
  · intro c hc
    rcases List.mem_append.mp hc with hc | hc
    · exact htarget.2 c hc
    · exact hrest c hc

theorem step_beneath (hlinks : SafeLinks entries) (hwalk : Beneath walk)
    (h : Step entries walk next) : Beneath next := by
  obtain ⟨_, hpending⟩ := hwalk
  cases h with
  | stay _ =>
    exact ⟨⟨_, rfl⟩, (List.forall_mem_cons.mp hpending).2⟩
  | up => exact absurd rfl (List.forall_mem_cons.mp hpending).1
  | leave => exact absurd rfl (List.forall_mem_cons.mp hpending).1
  | enter _ =>
    exact ⟨⟨_, rfl⟩, (List.forall_mem_cons.mp hpending).2⟩
  | symlink _ hlink =>
    exact beneath_follow (hlink.safeTarget hlinks) (List.forall_mem_cons.mp hpending).2
  | hardlink _ hmem hkind _ =>
    have htarget := hlinks _ hmem (by rw [hkind]; decide)
    exact beneath_follow htarget (List.forall_mem_cons.mp hpending).2

theorem walk_beneath (hlinks : SafeLinks entries) (hwalk : Beneath walk)
    (h : Relation.ReflTransGen (Step entries) walk next) : Beneath next := by
  induction h with
  | refl => exact hwalk
  | tail _ hstep ih => exact step_beneath hlinks ih hstep

/-- The links of an accepted entry are those that `safe_link` has accepted. -/
theorem safeTarget_of_entryOf {raw : RawEntry} {limits : Limits} {entry : Entry}
    (h : entryOf raw limits = .ok entry) (hkind : entry.kind ≠ .regular) :
    SafeTarget entry.linkTarget := by
  obtain ⟨_, hkindOf, _⟩ := entryOf_ok_iff.mp h
  obtain ⟨_, _, htarget, _⟩ | ⟨_, _, htarget, _⟩ | ⟨hregular, _⟩ | ⟨hregular, _⟩ :=
    kindOf_cases hkindOf
  · exact safeLink_ok htarget
  · exact safeLink_ok htarget
  · exact absurd hregular hkind
  · exact absurd hregular hkind

theorem safeLinks_of_accepted {limits : Limits} {raws : List RawEntry}
    (h : Accepted limits raws entries) : SafeLinks entries := by
  intro entry hmem hkind
  obtain ⟨raw, _, hraw⟩ := h.exists_raw hmem
  exact safeTarget_of_entryOf hraw hkind

/-- Whatever entries an archive has, once `list` has accepted them every walk from the
root along a path that `safe_path` accepts stays at or beneath the root, after any number
of components and links. -/
theorem walk_beneath_of_list {archive : Archive} {limits : Limits} {raw : Option CString}
    {limit : Nat} {path : Text} (hlist : list archive limits = .ok entries)
    (hpath : safePath raw limit = .ok path)
    (h : Relation.ReflTransGen (Step entries) (Walk.start path) walk) :
    ∃ names, walk.place = .beneath names := by
  have hlinks : SafeLinks entries := safeLinks_of_accepted (list_ok_iff.mp hlist).2.1
  have hstart : Beneath (Walk.start path) := by
    refine ⟨⟨[], rfl⟩, ?_⟩
    intro c hc
    exact ((canonical_of_safePath hpath).1.components c hc).2.2
  exact (walk_beneath hlinks hstart h).1

end Walks

/-- `usr/lib64` is a symbolic link to `lib`. -/
def linkArchive : Archive where
  fileSize := .ok 512
  entries := [{
    pathname := some (CString.ofText "usr/lib64".toList)
    filetype := .symlink
    symlink := some (CString.ofText "lib".toList) }]

def linkEntry : Entry := { path := "usr/lib64".toList, kind := .symlink, linkTarget := "lib".toList }

theorem walk_beneath_lib64 :
    list linkArchive = .ok [linkEntry] ∧
    Relation.ReflTransGen (Step [linkEntry]) (Walk.start "usr/lib64/x".toList)
      ⟨.beneath ["usr".toList, "lib".toList], ["x".toList]⟩ ∧
    ∃ names, Place.beneath ["usr".toList, "lib".toList] = .beneath names := by
  have hlist : list linkArchive = .ok [linkEntry] := by rfl
  have hpath : safePath (some (CString.ofText "usr/lib64/x".toList)) 4096 =
      .ok "usr/lib64/x".toList := by rfl
  have hplain : Plain "usr".toList ∧ Plain "lib64".toList ∧ Plain "lib".toList := by
    refine ⟨⟨by decide, by decide, by decide⟩, ⟨by decide, by decide, by decide⟩,
      ⟨by decide, by decide, by decide⟩⟩
  have hlink : SymlinkAt [linkEntry] (["usr".toList] ++ ["lib64".toList]) "lib".toList :=
    .entry (List.mem_singleton.mpr rfl) rfl
  have hwalk : Relation.ReflTransGen (Step [linkEntry]) (Walk.start "usr/lib64/x".toList)
      ⟨.beneath ["usr".toList, "lib".toList], ["x".toList]⟩ :=
    ((Relation.ReflTransGen.single (Step.enter hplain.1)).tail (Step.symlink hplain.2.1 hlink)).tail
      (Step.enter hplain.2.2)
  exact ⟨hlist, hwalk, walk_beneath_of_list hlist hpath hwalk⟩

end ExeCell.Package.ArchiveAdapter
