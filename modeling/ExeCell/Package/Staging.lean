import ExeCell.Package.Snapshot

/-!
# What `scan` writes into the root

The directories that are made in the root, and `write_root_file`, which opens a file below
the root without following links, makes it when it is not there, and replaces what it has.
A file that is there keeps its other names.

`record_writeRootFile`: nothing else in the root is changed by it.
-/

namespace ExeCell.Package.FileDiff

open LexicalPath (Place Plain)
open Listing (Entry)

/-- The entry is new: it has a name of its own, in a directory. -/
structure FileSystem.Fits (files : FileSystem) (entry : Entry Text Node) : Prop where
  named : ∀ name ∈ entry.place, Plain name ∧ '/' ∉ name
  directory : entry.parent = [] ∨
    ∃ dir ∈ files.entries, dir.place = entry.parent ∧ dir.node.isDirectory = true
  free : ∀ other ∈ files.entries, other.place ≠ entry.place

instance (files : FileSystem) (entry : Entry Text Node) : Decidable (files.Fits entry) :=
  decidable_of_iff
    ((∀ name ∈ entry.place, Plain name ∧ '/' ∉ name) ∧
      (entry.parent = [] ∨
        ∃ dir ∈ files.entries, dir.place = entry.parent ∧ dir.node.isDirectory = true) ∧
      ∀ other ∈ files.entries, other.place ≠ entry.place)
    ⟨fun h => ⟨h.1, h.2.1, h.2.2⟩, fun h => ⟨h.named, h.directory, h.free⟩⟩

/-- The files with one more entry. -/
def FileSystem.add (files : FileSystem) (entry : Entry Text Node) (next : Nat)
    (h : files.Fits entry) (hnext : files.next ≤ next)
    (hnumber : ∀ inode, entry.node = .file inode → inode < next) : FileSystem where
  entries := files.entries ++ [entry]
  inodes := files.inodes
  next := next
  distinct := by
    rw [List.map_append, List.map_singleton]
    apply List.nodup_append.mpr
    refine ⟨files.distinct, List.nodup_singleton _, ?_⟩
    intro place hplace last hlast
    obtain ⟨other, hother, rfl⟩ := List.mem_map.mp hplace
    rw [List.mem_singleton.mp hlast]
    exact h.free other hother
  named := List.forall_mem_append.mpr ⟨files.named, List.forall_mem_singleton.mpr h.named⟩
  rooted := by
    have hlater : ∀ parent : Place,
        (parent = [] ∨ ∃ dir ∈ files.entries, dir.place = parent ∧ dir.node.isDirectory = true) →
        parent = [] ∨ ∃ dir ∈ files.entries ++ [entry],
          dir.place = parent ∧ dir.node.isDirectory = true := by
      intro parent hparent
      obtain hroot | ⟨dir, hdir, hplace⟩ := hparent
      · exact Or.inl hroot
      · exact Or.inr ⟨dir, List.mem_append_left _ hdir, hplace⟩
    refine List.forall_mem_append.mpr ⟨?_, List.forall_mem_singleton.mpr (hlater _ h.directory)⟩
    intro other hother
    exact hlater _ (files.rooted other hother)
  numbered := by
    refine List.forall_mem_append.mpr ⟨?_, List.forall_mem_singleton.mpr hnumber⟩
    intro other hother inode hinode
    exact (files.numbered other hother inode hinode).trans_le hnext

/-- The files with new data behind a number. -/
def FileSystem.rewrite (files : FileSystem) (inode : Nat) (file : Inode) : FileSystem :=
  { files with inodes := Function.update files.inodes inode file }

/-- `mkdir`; nothing happens when it fails. -/
def FileSystem.makeDirectory (files : FileSystem) (parent : Place) (name : Text) : FileSystem :=
  let entry : Entry Text Node := { parent := parent, name := name, node := .directory true true }
  if h : files.Fits entry then files.add entry files.next h le_rfl nofun else files

/-- The files with a name for a file that has the next number. -/
def FileSystem.addFile (files : FileSystem) (parent : Place) (name : Text)
    (h : files.Fits { parent := parent, name := name, node := .file files.next }) : FileSystem :=
  files.add _ (files.next + 1) h (Nat.le_succ files.next) (by
    intro inode hinode
    obtain rfl := Node.file.inj hinode
    exact Nat.lt_succ_self _)

/-- The files with a new file. -/
def FileSystem.createFile (files : FileSystem) (parent : Place) (name : Text) (file : Inode)
    (h : files.Fits { parent := parent, name := name, node := .file files.next }) : FileSystem :=
  (files.addFile parent name h).rewrite files.next file

/-- What a call of `write_root_file` finds to make a file, or to write to one. -/
structure Writing where
  /-- The owner, the mode and the readability of a new file. -/
  created : Inode := { mode := 0o700 }
  /-- The mode of a file behind a write to it. -/
  cleared : Nat → Nat := id
  /-- The descriptor is not opened, or a write to it fails. -/
  fails : Bool := false

def FileSystem.isSearchable (files : FileSystem) (place : Place) : Bool :=
  files.look place = some (.directory true)

/-- `write_root_file`, when it is not exclusive. There is no answer when it returns false. -/
def FileSystem.writeRootFile (files : FileSystem) (root : Root) (writing : Writing)
    (relative data : Text) : Option FileSystem :=
  let names := relative.splitOn '/'
  -- no link is followed on the way
  let reached := names.dropLast.inits.all fun front => files.isSearchable (root.place ++ front)
  if !reached || writing.fails then none
  else
    match files.node (root.place ++ names) with
    | some (.file inode) =>
      let file := files.inodes inode
      some (files.rewrite inode { file with content := data, mode := writing.cleared file.mode })
    | some .other => some files
    | some (.directory _ _) | some (.symlink _ _) => none
    | none =>
      if h : files.Fits
          { parent := root.place ++ names.dropLast, name := names.getLastD []
            node := .file files.next } then
        some (files.createFile _ _ { writing.created with content := data } h)
      else none

section Records

variable {files after : FileSystem} {root : Root} {path : Text}

theorem node_add {entry : Entry Text Node} {next : Nat} (h : files.Fits entry)
    (hnext : files.next ≤ next) (hnumber : ∀ inode, entry.node = .file inode → inode < next)
    (place : Place) :
    (files.add entry next h hnext hnumber).node place =
      if place = entry.place then some entry.node else files.node place := by
  split
  · rename_i hplace
    rw [hplace]
    exact node_of_mem (List.mem_append_right _ (List.mem_singleton_self entry))
  · rename_i hplace
    rw [FileSystem.node, FileSystem.node]
    show ((files.entries ++ [entry]).find? _).map _ = _
    rw [List.find?_append, List.find?_singleton, if_neg (by simpa using Ne.symm hplace),
      Option.or_none]

theorem stateOf_rewrite {inode : Nat} {node : Node} (h : node ≠ .file inode) (file : Inode) :
    (files.rewrite inode file).stateOf node = files.stateOf node := by
  cases node with
  | file other =>
    have hne : other ≠ inode := fun heq => h (congrArg Node.file heq)
    show some (Function.update files.inodes inode file other).state = _
    rw [Function.update_of_ne hne]
    rfl
  | _ => rfl

theorem lt_next_of_node {place : Place} {inode : Nat} (h : files.node place = some (.file inode)) :
    inode < files.next := by
  obtain ⟨entry, hmem, -, hnode⟩ := mem_of_node h
  exact files.numbered entry hmem inode hnode

/-- A directory that is made changes no record. -/
theorem record_makeDirectory (parent : Place) (name : Text) :
    (files.makeDirectory parent name).record root path = files.record root path := by
  rw [FileSystem.makeDirectory]
  split
  · rename_i hfits
    rw [FileSystem.record, FileSystem.record, node_add]
    split
    · rename_i hplace
      cases hnode : files.node (root.place ++ path.splitOn '/') with
      | none => rfl
      | some node =>
        obtain ⟨entry, hmem, hentry, -⟩ := mem_of_node hnode
        exact absurd (hentry.trans hplace) (hfits.free entry hmem)
    · rfl
  · rfl

theorem node_createFile {parent : Place} {name : Text} (file : Inode)
    (h : files.Fits { parent := parent, name := name, node := .file files.next }) (place : Place) :
    (files.createFile parent name file h).node place =
      if place = parent ++ [name] then some (.file files.next) else files.node place := by
  show (files.addFile parent name h).node place = _
  rw [FileSystem.addFile, node_add]
  rfl

theorem record_createFile {parent : Place} {name : Text} (file : Inode)
    (h : files.Fits { parent := parent, name := name, node := .file files.next })
    (hpath : root.place ++ path.splitOn '/' ≠ parent ++ [name]) :
    (files.createFile parent name file h).record root path = files.record root path := by
  rw [FileSystem.record, FileSystem.record, node_createFile, if_neg hpath]
  cases hnode : files.node (root.place ++ path.splitOn '/') with
  | none => rfl
  | some node =>
    have hne : node ≠ .file files.next := by
      rintro rfl
      exact absurd (lt_next_of_node hnode) (lt_irrefl _)
    show ((files.addFile parent name h).rewrite _ _).stateOf node =
      (files.addFile parent name h).stateOf node
    exact stateOf_rewrite hne file

/-- The path is a name of the file that is at the other one. -/
def FileSystem.Shares (files : FileSystem) (root : Root) (relative path : Text) : Prop :=
  ∃ inode, files.node (root.place ++ relative.splitOn '/') = some (.file inode) ∧
    files.node (root.place ++ path.splitOn '/') = some (.file inode)

/-- What is written is recorded at the names of the file only. -/
theorem record_writeRootFile {writing : Writing} {relative data : Text}
    (h : files.writeRootFile root writing relative data = some after)
    (hshares : ¬ after.Shares root relative path) :
    after.record root path = files.record root path := by
  rw [FileSystem.writeRootFile] at h
  dsimp only at h
  split at h
  · cases h
  split at h
  · -- the file is there
    rename_i inode hnode
    obtain rfl := Option.some.inj h
    rw [FileSystem.record, FileSystem.record]
    show (files.node _).bind _ = _
    cases hpath : files.node (root.place ++ path.splitOn '/') with
    | none => rfl
    | some node =>
      apply stateOf_rewrite
      rintro rfl
      exact hshares ⟨inode, hnode, hpath⟩
  · obtain rfl := Option.some.inj h
    rfl
  · cases h
  · cases h
  · rename_i hnone
    split at h
    · rename_i hfits
      obtain rfl := Option.some.inj h
      have hplace : root.place ++ (relative.splitOn '/').dropLast ++
          [(relative.splitOn '/').getLastD []] = root.place ++ relative.splitOn '/' := by
        rw [List.append_assoc, List.getLastD_eq_getLast?,
          List.getLast?_eq_some_getLast (List.splitOn_ne_nil '/' relative), Option.getD_some,
          List.dropLast_append_getLast]
      apply record_createFile
      rw [hplace]
      intro hpath
      apply hshares
      refine ⟨files.next, ?_, ?_⟩
      · rw [node_createFile, if_pos hplace.symm]
      · rw [node_createFile, if_pos (hpath.trans hplace.symm)]
    · cases h

/-- There is a file behind the write, unless it went to something else. -/
theorem exists_record_of_shares {relative : Text} (h : files.Shares root relative path) :
    ∃ state, files.record root path = some state := by
  obtain ⟨inode, -, hnode⟩ := h
  rw [FileSystem.record, hnode]
  exact ⟨_, rfl⟩

end Records

end ExeCell.Package.FileDiff
