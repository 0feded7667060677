import Mathlib.Data.List.Basic

/-!
# Reading a stream in blocks

An input stream is read in blocks of a fixed size for as long as a read succeeds or has at
least stored something. The last block may be short. A read that does not get all it asks
for fails, and a stream that has failed stores nothing from then on.

Whatever is folded over the blocks is folded over the whole content (`foldBlocks_eq`), and
the number of reads until the loop ends is `blockReads`.
-/

namespace BlockRead

variable {α β : Type}

/-- A stream: what is left to read, and whether a read has failed. -/
structure Stream (α : Type) where
  rest : List α
  failed : Bool := false
  deriving DecidableEq, Repr

/-- What a read stores, and the stream behind it. -/
def Stream.read (stream : Stream α) (size : Nat) : List α × Stream α :=
  if stream.failed then ([], stream)
  else
    (stream.rest.take size,
      { rest := stream.rest.drop size, failed := decide (stream.rest.length < size) })

/-- The loop over the blocks, with a state that takes one character after the other. The
answer is `none` when it has not ended within this many reads. -/
def foldBlocks (size : Nat) (step : β → α → β) : Nat → Stream α → β → Option β
  | 0, _, _ => none
  | reads + 1, stream, state =>
    let (block, stream) := stream.read size
    if !stream.failed || !block.isEmpty then
      foldBlocks size step reads stream (block.foldl step state)
    else some state

/-- The number of reads for a content of this length: one for each block, the short one
included, and one that stores nothing. -/
def blockReads (size length : Nat) : Nat := (length + size - 1) / size + 1

section Loop

variable {size : Nat} {step : β → α → β}

/-- A stream that has failed ends the loop with the next read. -/
theorem foldBlocks_failed (reads : Nat) (rest : List α) (state : β) :
    foldBlocks size step (reads + 1) { rest := rest, failed := true } state = some state := rfl

/-- A whole block. -/
theorem foldBlocks_block (reads : Nat) {rest : List α} (state : β) (h : size ≤ rest.length) :
    foldBlocks size step (reads + 1) { rest := rest } state =
      foldBlocks size step reads { rest := rest.drop size } ((rest.take size).foldl step state) := by
  have hgood : decide (rest.length < size) = false := decide_eq_false (by omega)
  rw [foldBlocks, Stream.read, if_neg Bool.false_ne_true, hgood]
  rfl

/-- The short block that is left at the end. -/
theorem foldBlocks_short (reads : Nat) {rest : List α} (state : β) (hne : rest ≠ [])
    (h : rest.length < size) :
    foldBlocks size step (reads + 1) { rest := rest } state =
      foldBlocks size step reads { rest := [], failed := true } (rest.foldl step state) := by
  have hempty : rest.isEmpty = false := List.isEmpty_eq_false_iff.mpr hne
  have htake : rest.take size = rest := List.take_of_length_le (Nat.le_of_lt h)
  have hdrop : rest.drop size = [] := List.drop_of_length_le (Nat.le_of_lt h)
  rw [foldBlocks, Stream.read, if_neg Bool.false_ne_true, htake, hdrop, decide_eq_true h]
  dsimp only
  rw [hempty]
  rfl

theorem foldBlocks_nil (reads : Nat) (state : β) (h : 0 < size) :
    foldBlocks size step (reads + 1) { rest := [] } state = some state := by
  rw [foldBlocks, Stream.read, if_neg Bool.false_ne_true, List.take_nil, List.length_nil,
    decide_eq_true h]
  rfl

/-! ## The number of reads -/

theorem blockReads_zero (h : 0 < size) : blockReads size 0 = 1 := by
  rw [blockReads, Nat.zero_add, Nat.div_eq_of_lt (by omega)]

theorem blockReads_short {length : Nat} (hpos : 0 < length) (h : length < size) :
    blockReads size length = 2 := by
  have hquotient : (length + size - 1) / size = 1 := by
    rw [Nat.div_eq_iff (by omega)]
    omega
  rw [blockReads, hquotient]

theorem blockReads_block {length : Nat} (hsize : 0 < size) (h : size ≤ length) :
    blockReads size length = blockReads size (length - size) + 1 := by
  have hsplit : length + size - 1 = (length - size + size - 1) + size := by omega
  rw [blockReads, blockReads, hsplit, Nat.add_div_right _ hsize]

/-- The loop ends with read number `blockReads`, and no earlier; its state is then that of the
whole content. -/
theorem foldBlocks_eq (hsize : 0 < size) (reads : Nat) (content : List α) (state : β) :
    foldBlocks size step reads { rest := content } state =
      if blockReads size content.length ≤ reads then some (content.foldl step state) else none := by
  induction reads generalizing content state with
  | zero =>
    have hmore : ¬ blockReads size content.length ≤ 0 := Nat.not_succ_le_zero _
    rw [if_neg hmore]
    rfl
  | succ reads ih =>
    by_cases hwhole : size ≤ content.length
    · -- one whole block, and the rest by induction
      have hfold : ((content.drop size).foldl step ((content.take size).foldl step state)) =
          content.foldl step state := by
        rw [← List.foldl_append, List.take_append_drop]
      have hreads := blockReads_block hsize hwhole
      rw [foldBlocks_block reads state hwhole, ih, List.length_drop, hfold]
      by_cases henough : blockReads size (content.length - size) ≤ reads
      · rw [if_pos henough, if_pos (by omega)]
      · rw [if_neg henough, if_neg (by omega)]
    · cases hcontent : content with
      | nil =>
        rw [foldBlocks_nil reads state hsize, List.length_nil, blockReads_zero hsize,
          if_pos (by omega)]
        rfl
      | cons first rest =>
        rw [← hcontent]
        have hne : content ≠ [] := by
          rw [hcontent]
          nofun
        have hpos : 0 < content.length := List.length_pos_of_ne_nil hne
        rw [foldBlocks_short reads state hne (by omega), blockReads_short hpos (by omega)]
        -- the failed stream takes one more read
        cases reads with
        | zero =>
          rw [if_neg (by omega)]
          rfl
        | succ reads =>
          rw [foldBlocks_failed, if_pos (by omega)]

end Loop

end BlockRead
