import Mathlib.Data.Char
import ExeCell.Lib.LinkWalk
import ExeCell.Lib.Listing
import ExeCell.Lib.OrderedMap
import ExeCell.Package.Fingerprint
import ExeCell.Package.Scan

/-!
# Snapshots of the root

`snapshot` on a file system with directories, links and files that may have several names.
The path of an entry is made with `relative`, which follows the entry itself when it is a
link: what is recorded for a link comes under the path of what it leads to. Directories that
cannot be read are skipped.

`shown_eq_record`: a snapshot says of a path what is there, unless the path is astray, which
takes such a link or such a directory.
-/

namespace ExeCell.Package.FileDiff

open LexicalPath (Place Seen Led Real Plain join follow weaklyCanonical weaklyCanonical_of_real
  relative_append)
open Listing (Entry)
open OrderedMap (Ordered assign ordered_assign lookup_assign_self lookup_assign_of_ne)

/-! ## The file system -/

/-- A file; all its names share it. -/
structure Inode where
  content : Text := []
  mode : Nat := 0
  uid : Nat := 0
  gid : Nat := 0
  /-- Whether `scan` can open it for reading. -/
  opens : Bool := true
  deriving DecidableEq, Repr

inductive Node where
  | directory (readable search : Bool)
  | file (inode : Nat)
  | symlink (mode : Nat) (target : Text)
  | other
  deriving DecidableEq, Repr

def Node.isDirectory : Node → Bool
  | .directory _ _ => true
  | _ => false

def Node.isSymlink : Node → Bool
  | .symlink _ _ => true
  | _ => false

/-- What a snapshot records: files and links. -/
def Node.isRecorded : Node → Bool
  | .file _ | .symlink _ _ => true
  | .directory _ _ | .other => false

def Node.seen : Node → Seen
  | .directory _ search => .directory search
  | .symlink _ target => .symlink target
  | .file _ | .other => .other

/-- What is below the root directory of the host, in the order in which a walk comes to it. -/
structure FileSystem where
  entries : List (Entry Text Node)
  inodes : Nat → Inode := fun _ => {}
  /-- The number of the next file. -/
  next : Nat
  distinct : (entries.map Entry.place).Nodup
  named : ∀ entry ∈ entries, ∀ name ∈ entry.place, Plain name ∧ '/' ∉ name
  rooted : ∀ entry ∈ entries, entry.parent = [] ∨
    ∃ dir ∈ entries, dir.place = entry.parent ∧ dir.node.isDirectory = true
  numbered : ∀ entry ∈ entries, ∀ inode, entry.node = .file inode → inode < next

/-- The root of a session, by the place it leads to. -/
structure Root where
  place : Place
  /-- The links that can be followed behind it: 40 less those on the way to it. -/
  links : Nat := 40
  deriving DecidableEq, Repr

def FileSystem.node (files : FileSystem) (place : Place) : Option Node :=
  (files.entries.find? fun entry => entry.place = place).map Entry.node

def FileSystem.look (files : FileSystem) (place : Place) : Option Seen :=
  if place = [] then some (.directory true) else (files.node place).map Node.seen

/-- `exists`, of a path below the root. There is no answer when it throws. -/
def FileSystem.exists (files : FileSystem) (root : Root) (names : List Text) : Option Bool :=
  match follow files.look root.links root.place names with
  | .to _ => some true
  | .nowhere => some false
  | .denied => none

def Inode.state (file : Inode) : FileState where
  size := file.content.length
  mode := file.mode
  uid := file.uid
  gid := file.gid
  hash := fileFingerprint (if file.opens then some file.content else none)

/-- What is recorded of a regular file and of a link. -/
def FileSystem.stateOf (files : FileSystem) : Node → Option FileState
  | .file inode => some (files.inodes inode).state
  | .symlink mode target => some { mode := mode, hash := fingerprint target }
  | .directory _ _ | .other => none

/-! ## `snapshot` -/

def FileSystem.isReadable (files : FileSystem) (place : Place) : Bool :=
  if place = [] then true
  else
    match files.node place with
    | some (.directory readable _) => readable
    | _ => false

/-- The iterator comes to the entry: it is below the root, and the directories on the way are
opened. The walk follows no links. -/
def FileSystem.visits (files : FileSystem) (root : Root) (entry : Entry Text Node) : Bool :=
  root.place.isPrefixOf entry.parent &&
    (entry.parent.drop root.place.length).inits.all fun names =>
      files.isReadable (root.place ++ names)

def FileSystem.visited (files : FileSystem) (root : Root) : List (Entry Text Node) :=
  files.entries.filter (files.visits root)

/-- The names of an entry below the root. -/
def Root.names (root : Root) (entry : Entry Text Node) : List Text :=
  entry.place.drop root.place.length

/-- The path of an entry below the root. -/
def Root.path (root : Root) (entry : Entry Text Node) : Text := join (root.names entry)

/-- `relative(entry.path(), root)`. There is no answer when it throws. -/
def FileSystem.relative (files : FileSystem) (root : Root) (entry : Entry Text Node) :
    Option Text :=
  (weaklyCanonical files.look root.links root.place (root.names entry)).map fun place =>
    LexicalPath.relative place root.place

/-- The loop of `snapshot`. -/
def FileSystem.snapshotLoop (files : FileSystem) (root : Root) :
    List (Entry Text Node) → Snapshot → Option Snapshot
  | [], result => some result
  | entry :: entries, result =>
    match files.relative root entry with
    | none => none
    | some relative =>
      match files.stateOf entry.node with
      | none => files.snapshotLoop root entries result
      | some state => files.snapshotLoop root entries (assign relative state result)

/-- `snapshot`. There is no answer when it throws. -/
def FileSystem.snapshot (files : FileSystem) (root : Root) : Option Snapshot :=
  match files.look root.place with
  | none => some []
  | some (.directory _) => files.snapshotLoop root (files.visited root) []
  -- the iterator cannot be made
  | some _ => none

/-! ## What is there, and what is shown -/

/-- What there is to record at a path below the root. -/
def FileSystem.record (files : FileSystem) (root : Root) (path : Text) : Option FileState :=
  (files.node (root.place ++ path.splitOn '/')).bind files.stateOf

/-- The state of the last of the entries for which `relative` gives this path. -/
def FileSystem.shownAmong (files : FileSystem) (root : Root) (path : Text)
    (entries : List (Entry Text Node)) : Option FileState :=
  entries.reverse.findSome? fun entry =>
    if files.relative root entry = some path then files.stateOf entry.node else none

/-- The state of the last entry that the walk comes to and for which `relative` gives this
path. -/
def FileSystem.shown (files : FileSystem) (root : Root) (path : Text) : Option FileState :=
  files.shownAmong root path (files.visited root)

/-- Of the files and links for which `relative` gives this path, the entry is the last that the
walk comes to. -/
structure FileSystem.Bears (files : FileSystem) (root : Root) (path : Text)
    (entry : Entry Text Node) : Prop where
  recorded : entry.node.isRecorded = true
  named : files.relative root entry = some path
  last : ∃ front rest, files.visited root = front ++ entry :: rest ∧
    ∀ other ∈ rest, other.node.isRecorded = true → files.relative root other ≠ some path

/-- Every file and every link below the root is in the other tree as well, with the same
recorded attributes. -/
def FileSystem.KeptIn (files files' : FileSystem) (root : Root) : Prop :=
  ∀ entry ∈ files.entries, root.place <+: entry.parent → entry.node.isRecorded = true →
    ∃ other ∈ files'.entries, other.place = entry.place ∧
      files'.stateOf other.node = files.stateOf entry.node

/-- The path is that of an entry which the walk does not come to, or it is one of the two
paths of a link that leads somewhere: its own, and the path of what it leads to. -/
inductive FileSystem.Astray (files : FileSystem) (root : Root) (path : Text) : Prop
  | hidden (entry : Entry Text Node) (mem : entry ∈ files.entries)
      (below : root.place <+: entry.parent) (unseen : files.visits root entry = false)
      (own : root.path entry = path)
  | linked (entry : Entry Text Node) (mem : entry ∈ files.visited root)
      (link : entry.node.isSymlink = true)
      (leads : files.relative root entry ≠ some (root.path entry))
      (either : root.path entry = path ∨ files.relative root entry = some path)

section Places

variable {files : FileSystem} {root : Root} {entry : Entry Text Node}

theorem mem_visited :
    entry ∈ files.visited root ↔ entry ∈ files.entries ∧ files.visits root entry = true :=
  List.mem_filter

theorem node_of_mem (h : entry ∈ files.entries) : files.node entry.place = some entry.node := by
  rw [FileSystem.node]
  cases hfind : files.entries.find? fun other => other.place = entry.place with
  | none =>
    have hne := List.find?_eq_none.mp hfind entry h
    exact absurd (decide_eq_true rfl) hne
  | some other =>
    have hplace : other.place = entry.place := by simpa using List.find?_some hfind
    have hmem := List.mem_of_find?_eq_some hfind
    rw [List.inj_on_of_nodup_map files.distinct hmem h hplace]
    rfl

theorem mem_of_node {place : Place} {node : Node} (h : files.node place = some node) :
    ∃ entry ∈ files.entries, entry.place = place ∧ entry.node = node := by
  rw [FileSystem.node, Option.map_eq_some_iff] at h
  obtain ⟨entry, hfind, hnode⟩ := h
  exact ⟨entry, List.mem_of_find?_eq_some hfind, by simpa using List.find?_some hfind, hnode⟩

/-- The names of an entry below the root lead to it from there. -/
theorem place_eq (h : root.place <+: entry.parent) :
    entry.place = root.place ++ root.names entry := by
  obtain ⟨rest, hrest⟩ := h
  rw [Root.names, Entry.place, ← hrest, List.append_assoc, List.drop_left]

theorem names_eq (h : root.place <+: entry.parent) :
    root.names entry = entry.parent.drop root.place.length ++ [entry.name] :=
  List.drop_append_of_le_length h.length_le

theorem splitOn_path (h : entry ∈ files.entries) (hbelow : root.place <+: entry.parent) :
    (root.path entry).splitOn '/' = root.names entry := by
  apply List.splitOn_intercalate
  · intro name hname
    apply (files.named entry h name _).2
    exact List.mem_of_mem_drop hname
  · rw [names_eq hbelow]
    exact List.append_ne_nil_of_right_ne_nil _ (List.cons_ne_nil _ _)

theorem record_of_mem (h : entry ∈ files.entries) (hbelow : root.place <+: entry.parent) :
    files.record root (root.path entry) = files.stateOf entry.node := by
  rw [FileSystem.record, splitOn_path h hbelow, ← place_eq hbelow, node_of_mem h]
  rfl

theorem look_of_mem (h : entry ∈ files.entries) :
    files.look entry.place = some entry.node.seen := by
  rw [FileSystem.look, if_neg, node_of_mem h]
  · rfl
  · exact List.append_ne_nil_of_right_ne_nil _ (List.cons_ne_nil _ _)

theorem look_of_readable {place : Place} (h : files.isReadable place = true) :
    ∃ search, files.look place = some (.directory search) := by
  rw [FileSystem.isReadable] at h
  rw [FileSystem.look]
  split at h
  · rename_i hroot
    exact ⟨true, if_pos hroot⟩
  · rename_i hroot
    split at h
    · rename_i readable search hnode
      refine ⟨search, ?_⟩
      rw [if_neg hroot, hnode]
      rfl
    · cases h

end Places

section Visits

variable {files : FileSystem} {root : Root} {entry : Entry Text Node}

theorem below_of_visits (h : files.visits root entry = true) : root.place <+: entry.parent := by
  rw [FileSystem.visits, Bool.and_eq_true, List.isPrefixOf_iff_prefix] at h
  exact h.1

/-- The directories on the way to what the walk comes to. -/
theorem readable_of_visits (h : files.visits root entry = true) {front rest : List Text}
    (hnames : entry.parent.drop root.place.length = front ++ rest) :
    files.isReadable (root.place ++ front) = true := by
  rw [FileSystem.visits, Bool.and_eq_true, List.all_eq_true] at h
  apply h.2
  rw [List.mem_inits, hnames]
  exact List.prefix_append front rest

/-- Only its last name can be that of a link. -/
theorem real_of_visits (hmem : entry ∈ files.entries) (h : files.visits root entry = true)
    (hlink : entry.node.isSymlink = false) : Real files.look root.place (root.names entry) where
  plain := by
    intro name hname
    exact (files.named entry hmem name (List.mem_of_mem_drop hname)).1
  directories := by
    intro front last rest hnames
    have hparent : entry.parent.drop root.place.length = front ++ (last :: rest).dropLast := by
      rw [← List.dropLast_append_of_ne_nil (List.cons_ne_nil last rest), ← hnames,
        names_eq (below_of_visits h), List.dropLast_concat]
    exact look_of_readable (readable_of_visits h hparent)
  found := by
    refine ⟨entry.node.seen, ?_, ?_⟩
    · rw [← place_eq (below_of_visits h)]
      exact look_of_mem hmem
    · intro target hseen
      cases hnode : entry.node with
      | symlink mode target' =>
        rw [hnode] at hlink
        cases hlink
      | directory readable search =>
        rw [hnode] at hseen
        cases hseen
      | file inode =>
        rw [hnode] at hseen
        cases hseen
      | other =>
        rw [hnode] at hseen
        cases hseen

/-- What is no link comes under its own path. -/
theorem relative_of_not_link (hmem : entry ∈ files.entries) (h : files.visits root entry = true)
    (hlink : entry.node.isSymlink = false) :
    files.relative root entry = some (root.path entry) ∨ files.relative root entry = none := by
  have hne : root.names entry ≠ [] := by
    rw [names_eq (below_of_visits h)]
    exact List.append_ne_nil_of_right_ne_nil _ (List.cons_ne_nil _ _)
  rw [FileSystem.relative]
  obtain hplace | hnone := weaklyCanonical_of_real (real_of_visits hmem h hlink) root.links
  · apply Or.inl
    rw [hplace, Option.map_some, relative_append hne]
    rfl
  · apply Or.inr
    rw [hnone]
    rfl

end Visits

/-! ## What a snapshot says -/

section Snapshot

variable {files : FileSystem} {root : Root} {path : Text} {snapshot : Snapshot}

theorem shownAmong_cons (entry : Entry Text Node) (entries : List (Entry Text Node)) :
    files.shownAmong root path (entry :: entries) =
      (files.shownAmong root path entries).or
        (if files.relative root entry = some path then files.stateOf entry.node else none) := by
  rw [FileSystem.shownAmong, FileSystem.shownAmong, List.reverse_cons, List.findSome?_append,
    List.findSome?_singleton]

/-- What the loop leaves: the paths are in order, every entry had one, and the last entry
with a path is the one that counts. -/
theorem snapshotLoop_eq_some {entries : List (Entry Text Node)} {result : Snapshot}
    (hresult : Ordered result) (h : files.snapshotLoop root entries result = some snapshot) :
    Ordered snapshot ∧ (∀ entry ∈ entries, files.relative root entry ≠ none) ∧
      ∀ path, snapshot.find path = (files.shownAmong root path entries).or (result.find path) := by
  induction entries generalizing result with
  | nil =>
    obtain rfl := Option.some.inj h
    exact ⟨hresult, List.forall_mem_nil _, fun _ => rfl⟩
  | cons entry entries ih =>
    rw [FileSystem.snapshotLoop] at h
    cases hrelative : files.relative root entry with
    | none =>
      rw [hrelative] at h
      cases h
    | some relative =>
      rw [hrelative] at h
      have hsome : files.relative root entry ≠ none := by
        rw [hrelative]
        exact Option.some_ne_none relative
      cases hstate : files.stateOf entry.node with
      | none =>
        rw [hstate] at h
        obtain ⟨hordered, hall, hfind⟩ := ih hresult h
        refine ⟨hordered, List.forall_mem_cons.mpr ⟨hsome, hall⟩, ?_⟩
        intro path
        rw [hfind, shownAmong_cons, hstate, ite_self, Option.or_none]
      | some state =>
        rw [hstate] at h
        obtain ⟨hordered, hall, hfind⟩ := ih (ordered_assign hresult) h
        refine ⟨hordered, List.forall_mem_cons.mpr ⟨hsome, hall⟩, ?_⟩
        intro path
        rw [hfind, shownAmong_cons, hstate, hrelative, Option.or_assoc]
        congr 1
        by_cases hpath : path = relative
        · rw [hpath, if_pos rfl]
          exact lookup_assign_self relative state result
        · rw [if_neg (fun heq => hpath (Option.some.inj heq).symm)]
          exact lookup_assign_of_ne hpath

/-- A root that is not there has nothing below it. -/
theorem visited_of_look (h : files.look root.place = none) : files.visited root = [] := by
  apply List.filter_eq_nil_iff.mpr
  intro entry _ hvisits
  have hreadable : files.isReadable (root.place ++ []) = true := readable_of_visits hvisits rfl
  rw [List.append_nil] at hreadable
  obtain ⟨search, hsearch⟩ := look_of_readable hreadable
  rw [h] at hsearch
  cases hsearch

theorem snapshot_eq_some (h : files.snapshot root = some snapshot) :
    Ordered snapshot ∧ (∀ entry ∈ files.visited root, files.relative root entry ≠ none) ∧
      ∀ path, snapshot.find path = files.shown root path := by
  rw [FileSystem.snapshot] at h
  split at h
  · rename_i hnone
    obtain rfl := Option.some.inj h
    rw [visited_of_look hnone]
    refine ⟨List.Pairwise.nil, List.forall_mem_nil _, ?_⟩
    intro path
    rw [FileSystem.shown, visited_of_look hnone]
    rfl
  · obtain ⟨hordered, hall, hfind⟩ := snapshotLoop_eq_some List.Pairwise.nil h
    refine ⟨hordered, hall, ?_⟩
    intro path
    rw [hfind]
    exact Option.or_none
  · cases h

/-- At a path that is not astray an entry comes under its own path. -/
theorem relative_iff_own (h : files.snapshot root = some snapshot)
    (hastray : ¬ files.Astray root path) {entry : Entry Text Node}
    (hmem : entry ∈ files.visited root) :
    files.relative root entry = some path ↔ root.path entry = path := by
  have hsome := (snapshot_eq_some h).2.1 entry hmem
  obtain ⟨hentry, hvisits⟩ := mem_visited.mp hmem
  by_cases hown : files.relative root entry = some (root.path entry)
  · rw [hown]
    exact Option.some_inj
  · cases hlink : entry.node.isSymlink with
    | false =>
      obtain hpath | hnone := relative_of_not_link hentry hvisits hlink
      · exact absurd hpath hown
      · exact absurd hnone hsome
    | true =>
      constructor
      · intro hrelative
        exact absurd (.linked entry hmem hlink hown (Or.inr hrelative)) hastray
      · intro hpath
        exact absurd (.linked entry hmem hlink hown (Or.inl hpath)) hastray

/-- What is recorded at a path is the state of an entry with this path. -/
theorem mem_of_record {state : FileState} (h : files.record root path = some state) :
    ∃ entry ∈ files.entries, root.place <+: entry.parent ∧ root.path entry = path ∧
      files.stateOf entry.node = some state := by
  rw [FileSystem.record, Option.bind_eq_some_iff] at h
  obtain ⟨node, hnode, hstate⟩ := h
  obtain ⟨entry, hmem, hplace, rfl⟩ := mem_of_node hnode
  have hbelow : root.place <+: entry.parent := by
    have hparent : entry.parent = entry.place.dropLast := List.dropLast_concat.symm
    rw [hparent, hplace, List.dropLast_append_of_ne_nil (List.splitOn_ne_nil '/' path)]
    exact List.prefix_append _ _
  refine ⟨entry, hmem, hbelow, ?_, hstate⟩
  rw [Root.path, Root.names, hplace, List.drop_left]
  exact List.intercalate_splitOn '/'

theorem mem_of_shown {state : FileState} (h : files.shown root path = some state) :
    ∃ entry ∈ files.visited root, files.relative root entry = some path ∧
      files.stateOf entry.node = some state := by
  rw [FileSystem.shown, FileSystem.shownAmong] at h
  obtain ⟨entry, hmem, hentry⟩ := List.exists_of_findSome?_eq_some h
  obtain ⟨hpath, hstate⟩ := (Option.ite_none_right_eq_some).mp hentry
  exact ⟨entry, List.mem_reverse.mp hmem, hpath, hstate⟩

theorem isSome_stateOf (files : FileSystem) (node : Node) :
    (files.stateOf node).isSome = node.isRecorded := by
  cases node <;> rfl

/-- What bears a path is what is shown there. -/
theorem shown_of_bears {entry : Entry Text Node} (h : files.Bears root path entry) :
    files.shown root path = files.stateOf entry.node := by
  obtain ⟨front, rest, hvisited, hlast⟩ := h.last
  obtain ⟨state, hstate⟩ : ∃ state, files.stateOf entry.node = some state := by
    rw [← Option.isSome_iff_exists, isSome_stateOf]
    exact h.recorded
  rw [FileSystem.shown, FileSystem.shownAmong, hvisited, hstate, List.findSome?_eq_some_iff]
  refine ⟨rest.reverse, entry, front.reverse, by simp, ?_, ?_⟩
  · rw [if_pos h.named, hstate]
  · intro other hother
    split
    · rename_i hpath
      by_contra hsome
      rw [← Ne, Option.ne_none_iff_isSome, isSome_stateOf] at hsome
      exact hlast other (List.mem_reverse.mp hother) hsome hpath
    · rfl

theorem bears_of_shown {state : FileState} (h : files.shown root path = some state) :
    ∃ entry, files.Bears root path entry ∧ files.stateOf entry.node = some state := by
  rw [FileSystem.shown, FileSystem.shownAmong, List.findSome?_eq_some_iff] at h
  obtain ⟨later, entry, earlier, hvisited, hentry, hlast⟩ := h
  obtain ⟨hpath, hstate⟩ := (Option.ite_none_right_eq_some).mp hentry
  have hrecorded : entry.node.isRecorded = true := by
    rw [← isSome_stateOf files, hstate]
    rfl
  refine ⟨entry, ⟨hrecorded, hpath, earlier.reverse, later.reverse, ?_, ?_⟩, hstate⟩
  · rw [← List.reverse_reverse (files.visited root), hvisited]
    simp
  · intro other hother hrecorded hpath
    have hnone := hlast other (List.mem_reverse.mp hother)
    rw [if_pos hpath] at hnone
    rw [← isSome_stateOf files, hnone] at hrecorded
    cases hrecorded

theorem shown_eq_none_iff :
    files.shown root path = none ↔ ∀ entry, ¬ files.Bears root path entry := by
  constructor
  · intro hnone entry h
    have hrecorded := h.recorded
    rw [← isSome_stateOf files, ← shown_of_bears h, hnone] at hrecorded
    cases hrecorded
  · intro h
    by_contra hsome
    obtain ⟨state, hstate⟩ := Option.ne_none_iff_exists'.mp hsome
    obtain ⟨entry, hentry, _⟩ := bears_of_shown hstate
    exact h entry hentry

/-- Something is shown at the path of every entry that has a state. -/
theorem shown_of_mem {entry : Entry Text Node} {state : FileState}
    (hmem : entry ∈ files.visited root) (hpath : files.relative root entry = some path)
    (hstate : files.stateOf entry.node = some state) :
    ∃ shown, files.shown root path = some shown := by
  apply Option.isSome_iff_exists.mp
  rw [FileSystem.shown, FileSystem.shownAmong, List.findSome?_isSome_iff]
  refine ⟨entry, List.mem_reverse.mpr hmem, ?_⟩
  rw [if_pos hpath, hstate]
  rfl

theorem keptIn_self : files.KeptIn files root :=
  fun entry hmem _ _ => ⟨entry, hmem, rfl, rfl⟩

/-- The records of two trees are the same when each has the files and links of the other. -/
theorem record_eq_iff {files' : FileSystem} :
    (∀ path, files.record root path = files'.record root path) ↔
      files.KeptIn files' root ∧ files'.KeptIn files root := by
  have hkept : ∀ {files files' : FileSystem},
      (∀ path, files.record root path = files'.record root path) → files.KeptIn files' root := by
    intro files files' h entry hmem hbelow hrecorded
    have hstate := record_of_mem hmem hbelow
    obtain ⟨state, hsome⟩ : ∃ state, files.stateOf entry.node = some state := by
      rw [← Option.isSome_iff_exists, isSome_stateOf]
      exact hrecorded
    rw [h, hsome] at hstate
    obtain ⟨other, hother, hbelow', hpath, hstate'⟩ := mem_of_record hstate
    refine ⟨other, hother, ?_, hstate'.trans hsome.symm⟩
    rw [place_eq hbelow, place_eq hbelow', ← splitOn_path hmem hbelow,
      ← splitOn_path hother hbelow', hpath]
  have hrecord : ∀ {files files' : FileSystem} {path : Text} {state : FileState},
      files.KeptIn files' root → files.record root path = some state →
        files'.record root path = some state := by
    intro files files' path state hkept h
    obtain ⟨entry, hmem, hbelow, hpath, hstate⟩ := mem_of_record h
    obtain ⟨other, hother, hplace, hsame⟩ :=
      hkept entry hmem hbelow (by rw [← isSome_stateOf files, hstate]; rfl)
    have hplace' : root.place ++ path.splitOn '/' = other.place := by
      rw [← hpath, splitOn_path hmem hbelow, ← place_eq hbelow, hplace]
    rw [FileSystem.record, hplace', node_of_mem hother, Option.bind_some, hsame, hstate]
  constructor
  · intro h
    exact ⟨hkept h, hkept fun path => (h path).symm⟩
  · rintro ⟨hthere, hback⟩ path
    apply Option.ext
    intro state
    exact ⟨hrecord hthere, hrecord hback⟩

/-- What a snapshot says of a path that is not astray is what is there. -/
theorem shown_eq_record (h : files.snapshot root = some snapshot)
    (hastray : ¬ files.Astray root path) : files.shown root path = files.record root path := by
  have hrecord : ∀ state, files.shown root path = some state →
      files.record root path = some state := by
    intro state hshown
    obtain ⟨entry, hmem, hpath, hstate⟩ := mem_of_shown hshown
    obtain ⟨hentry, hvisits⟩ := mem_visited.mp hmem
    have hown := (relative_iff_own h hastray hmem).mp hpath
    rw [← hown, record_of_mem hentry (below_of_visits hvisits), hstate]
  apply Option.ext
  intro state
  refine ⟨hrecord state, ?_⟩
  intro hstate
  obtain ⟨entry, hmem, hbelow, hown, hentry⟩ := mem_of_record hstate
  have hvisits : files.visits root entry = true := by
    by_contra hhidden
    exact hastray (.hidden entry hmem hbelow (Bool.not_eq_true _ ▸ hhidden) hown)
  have hvisited := mem_visited.mpr ⟨hmem, hvisits⟩
  obtain ⟨shown, hshown⟩ :=
    shown_of_mem hvisited ((relative_iff_own h hastray hvisited).mpr hown) hentry
  rw [hshown, ← hrecord shown hshown, hstate]

end Snapshot

end ExeCell.Package.FileDiff
