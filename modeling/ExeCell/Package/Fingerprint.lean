import ExeCell.Lib.BlockRead
import ExeCell.Package.Inspect

/-!
# The fingerprint of a file

`file_fingerprint`, of which `package.cpp` and `build.cpp` have a copy each: the FNV hash of
a file that is read in blocks of 8192 bytes. Both copies give the fingerprint of the whole
content, and their loops end (`fileFingerprint_chunked`).
-/

namespace ExeCell.Package

open BlockRead (Stream foldBlocks blockReads foldBlocks_eq)

/-- One byte of the hash. -/
def hashByte (prime hash : UInt64) (c : Char) : UInt64 :=
  (hash ^^^ UInt64.ofNat c.toNat) * prime

/-- The loop over the blocks of a file; there is no answer when it has not ended within this
many reads. -/
def hashBlocks (size : Nat) (basis prime : UInt64) (reads : Nat) (content : Text) : Option UInt64 :=
  foldBlocks size (hashByte prime) reads { rest := content } basis

/-- The fingerprint of a file by its blocks. There is no content when the file cannot be
opened. Every read but the last stores a byte, so that there are never more than one read
for each byte and one to end the loop. -/
def hashFile (size : Nat) (basis prime : UInt64) (file : Option Text) : Text :=
  match file with
  | none => []
  | some content =>
    match hashBlocks size basis prime (content.length + 1) content with
    | none => []
    | some hash => Text.ofNat hash.toNat

/-- `file_fingerprint` in `package.cpp`. -/
def fileFingerprint (file : Option Text) : Text :=
  hashFile 8192 1469598103934665603 1099511628211 file

/-- `file_fingerprint` in `build.cpp`. -/
def Build.fileFingerprint (file : Option Text) : Text :=
  hashFile 8192 1469598103934665603 1099511628211 file

section Blocks

variable {size : Nat} {basis prime : UInt64}

theorem hashBlocks_eq (hsize : 0 < size) (reads : Nat) (content : Text) :
    hashBlocks size basis prime reads content =
      if blockReads size content.length ≤ reads then
        some (content.foldl (hashByte prime) basis)
      else none := foldBlocks_eq hsize reads content basis

/-- A read for each byte and one more are enough. -/
theorem blockReads_le (hsize : 0 < size) (length : Nat) : blockReads size length ≤ length + 1 := by
  have hquotient : (length + size - 1) / size ≤ length := by
    rw [Nat.div_le_iff_le_mul_add_pred hsize]
    have hmul : length ≤ size * length := Nat.le_mul_of_pos_left length hsize
    omega
  rw [blockReads]
  omega

theorem hashFile_eq (hsize : 0 < size) (content : Text) :
    hashFile size basis prime (some content) =
      Text.ofNat (content.foldl (hashByte prime) basis).toNat := by
  rw [hashFile, hashBlocks_eq hsize, if_pos (blockReads_le hsize content.length)]

end Blocks

theorem fileFingerprint_some (content : Text) :
    fileFingerprint (some content) = fingerprint content := hashFile_eq (by decide) content

theorem Build.fileFingerprint_some (content : Text) :
    Build.fileFingerprint (some content) = fingerprint content := hashFile_eq (by decide) content

/-- For every content: both copies give the fingerprint of the whole, and their loop ends with
one read for each block, the short one included, and one that stores nothing. -/
theorem fileFingerprint_chunked (content : Text) :
    fileFingerprint (some content) = fingerprint content ∧
      Build.fileFingerprint (some content) = fingerprint content ∧
      ∀ reads, (hashBlocks 8192 1469598103934665603 1099511628211 reads content).isSome ↔
        (content.length + 8191) / 8192 + 1 ≤ reads := by
  refine ⟨fileFingerprint_some content, Build.fileFingerprint_some content, ?_⟩
  intro reads
  have hreads : blockReads 8192 content.length = (content.length + 8191) / 8192 + 1 := rfl
  rw [hashBlocks_eq (by decide), hreads]
  split
  · exact iff_of_true rfl ‹_›
  · exact iff_of_false Bool.false_ne_true ‹_›

end ExeCell.Package
