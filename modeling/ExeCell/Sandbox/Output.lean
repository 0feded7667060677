import Mathlib.Data.List.Induction
import ExeCell.Sandbox.Outcome

/-!
# The captured output

What `run_captured` keeps of the two pipes, one `read` at a time: one counter of 64 bits for
both streams decides what is kept and when the limit is met. In whatever order the chunks come,
what is kept is a prefix of each stream, up to the limit (`captured_faithful`), and the loop
takes the limit for exceeded when it has only been reached (`outputLimited_iff`).
-/

namespace ExeCell.Sandbox

/-- The variables of `run_captured` that a `read` changes. -/
structure Output where
  stdoutData : Text := []
  stderrData : Text := []
  totalOutput : Nat := 0
  outputLimited : Bool := false
  deriving DecidableEq, Repr

namespace Output

/-- What is kept of a stream. -/
def data (s : Output) : Stream → Text
  | .out => s.stdoutData
  | .err => s.stderrData

/-- `target.append` on the string of the stream. -/
def append (s : Output) (bytes : Text) : Stream → Output
  | .out => { s with stdoutData := s.stdoutData ++ bytes }
  | .err => { s with stderrData := s.stderrData ++ bytes }

/-- One `read` of `drain` with a positive count. -/
def read (limit : Nat) (s : Output) (stream : Stream) (chunk : Chunk) : Output :=
  let bytes := chunk.bytes.length
  let remaining := if limit > s.totalOutput then limit - s.totalOutput else 0
  let s' := if remaining ≠ 0 then s.append (chunk.bytes.take (min remaining bytes)) stream else s
  let totalOutput := (s.totalOutput + bytes) % 2 ^ 64
  { s' with
    totalOutput := totalOutput
    outputLimited := s.outputLimited || decide (totalOutput ≥ limit) }

/-- The variables after these reads. -/
def readAll (limit : Nat) (reads : List (Stream × Chunk)) : Output :=
  reads.foldl (fun s next => s.read limit next.1 next.2) {}

end Output

/-- The bytes that were read from a stream. -/
def bytesOf (stream : Stream) (reads : List (Stream × Chunk)) : Text :=
  (reads.filter fun next => next.1 = stream).flatMap fun next => next.2.bytes

/-- The number of bytes that were read. -/
def bytesRead (reads : List (Stream × Chunk)) : Nat :=
  (reads.map fun next => next.2.bytes.length).sum

/-- What is kept is a prefix of each stream, no more than the limit, and all there is while the
limit is not met. -/
structure FaithfulPrefix (limit : Nat) (reads : List (Stream × Chunk)) (s : Output) : Prop where
  starts : ∀ stream, s.data stream <+: bytesOf stream reads
  size : s.stdoutData.length + s.stderrData.length = min limit (bytesRead reads)
  whole : s.outputLimited = false → ∀ stream, s.data stream = bytesOf stream reads

/-! ## One read -/

section Read

variable {limit : Nat} {s : Output} {stream other : Stream} {chunk : Chunk}
  {reads : List (Stream × Chunk)}

theorem bytesOf_append (other : Stream) (reads : List (Stream × Chunk)) (stream : Stream)
    (chunk : Chunk) :
    bytesOf other (reads ++ [(stream, chunk)]) =
      bytesOf other reads ++ if stream = other then chunk.bytes else [] := by
  rw [bytesOf, List.filter_append, List.flatMap_append, bytesOf]
  by_cases h : stream = other <;> simp [h]

theorem bytesRead_append (reads : List (Stream × Chunk)) (stream : Stream) (chunk : Chunk) :
    bytesRead (reads ++ [(stream, chunk)]) = bytesRead reads + chunk.bytes.length := by
  simp [bytesRead]

theorem readAll_append (limit : Nat) (reads : List (Stream × Chunk)) (stream : Stream)
    (chunk : Chunk) :
    Output.readAll limit (reads ++ [(stream, chunk)]) =
      (Output.readAll limit reads).read limit stream chunk := by
  rw [Output.readAll, List.foldl_append]
  rfl

/-- What a read keeps. -/
theorem data_read :
    (s.read limit stream chunk).data other =
      s.data other ++ if stream = other then chunk.bytes.take (limit - s.totalOutput) else [] := by
  have hpart : chunk.bytes.take (min (limit - s.totalOutput) chunk.bytes.length) =
      chunk.bytes.take (limit - s.totalOutput) := List.take_eq_take_iff.mpr (by omega)
  have hremaining : (if limit > s.totalOutput then limit - s.totalOutput else 0) =
      limit - s.totalOutput := by
    split
    · rfl
    · omega
  rw [Output.read, hremaining]
  by_cases hfull : limit - s.totalOutput = 0
  · rw [if_neg (not_not.mpr hfull), hfull, List.take_zero, ite_self, List.append_nil]
    cases other <;> rfl
  · rw [if_pos hfull, hpart]
    cases stream <;> cases other <;> simp [Output.append, Output.data]

theorem length_read :
    (s.read limit stream chunk).stdoutData.length + (s.read limit stream chunk).stderrData.length =
      s.stdoutData.length + s.stderrData.length +
        min (limit - s.totalOutput) chunk.bytes.length := by
  have hout := congrArg List.length (@data_read limit s stream .out chunk)
  have herr := congrArg List.length (@data_read limit s stream .err chunk)
  simp only [Output.data] at hout herr
  rw [hout, herr]
  cases stream
  · simp
    omega
  · simp
    omega

end Read

/-! ## All reads -/

section Reads

variable {limit : Nat} {reads : List (Stream × Chunk)}

/-- The counter holds the number of bytes modulo its width. -/
theorem totalOutput_readAll (limit : Nat) (reads : List (Stream × Chunk)) :
    (Output.readAll limit reads).totalOutput = bytesRead reads % 2 ^ 64 := by
  induction reads using List.reverseRecOn with
  | nil => rfl
  | append_singleton reads next ih =>
    obtain ⟨stream, chunk⟩ := next
    rw [readAll_append, bytesRead_append]
    have htotal : ((Output.readAll limit reads).read limit stream chunk).totalOutput =
        ((Output.readAll limit reads).totalOutput + chunk.bytes.length) % 2 ^ 64 := rfl
    rw [htotal, ih, Nat.mod_add_mod]

/-- The limit is met as soon as some read takes the counter to it. -/
theorem limited_readAll_iff (limit : Nat) (reads : List (Stream × Chunk)) :
    (Output.readAll limit reads).outputLimited = true ↔
      ∃ front, front <+: reads ∧ front ≠ [] ∧ limit ≤ bytesRead front % 2 ^ 64 := by
  induction reads using List.reverseRecOn with
  | nil =>
    refine iff_of_false Bool.false_ne_true ?_
    rintro ⟨front, hfront, hne, _⟩
    exact hne (List.prefix_nil.mp hfront)
  | append_singleton reads next ih =>
    obtain ⟨stream, chunk⟩ := next
    have hlimited : ((Output.readAll limit reads).read limit stream chunk).outputLimited =
        ((Output.readAll limit reads).outputLimited ||
          decide (((Output.readAll limit reads).read limit stream chunk).totalOutput ≥ limit)) :=
      rfl
    rw [readAll_append, hlimited, ← readAll_append, totalOutput_readAll, Bool.or_eq_true, ih,
      decide_eq_true_eq]
    constructor
    · rintro (⟨front, hfront, hne, hreached⟩ | hreached)
      · exact ⟨front, hfront.trans (List.prefix_append ..), hne, hreached⟩
      · exact ⟨_, List.prefix_refl _, by simp, hreached⟩
    · rintro ⟨front, hfront, hne, hreached⟩
      rcases List.prefix_concat_iff.mp hfront with rfl | hfront
      · exact Or.inr hreached
      · exact Or.inl ⟨front, hfront, hne, hreached⟩

theorem bytesRead_le_of_prefix {front : List (Stream × Chunk)} (h : front <+: reads) :
    bytesRead front ≤ bytesRead reads := by
  obtain ⟨rest, rfl⟩ := h
  rw [bytesRead, bytesRead, List.map_append, List.sum_append]
  omega

/-- While the counter is exact and the limit has not been passed, nothing is dropped. -/
theorem whole_readAll (hbytes : bytesRead reads < 2 ^ 64) (h : bytesRead reads ≤ limit)
    (stream : Stream) : (Output.readAll limit reads).data stream = bytesOf stream reads := by
  induction reads using List.reverseRecOn with
  | nil => cases stream <;> rfl
  | append_singleton reads next ih =>
    obtain ⟨from_, chunk⟩ := next
    rw [bytesRead_append] at hbytes h
    rw [readAll_append, data_read, bytesOf_append, ih (by omega) (by omega),
      totalOutput_readAll, Nat.mod_eq_of_lt (by omega), List.take_of_length_le (by omega)]

/-- While the counter is exact, the two strings together have what was read up to the limit. -/
theorem size_readAll (hbytes : bytesRead reads < 2 ^ 64) :
    (Output.readAll limit reads).stdoutData.length +
        (Output.readAll limit reads).stderrData.length = min limit (bytesRead reads) := by
  induction reads using List.reverseRecOn with
  | nil => exact (Nat.min_zero limit).symm
  | append_singleton reads next ih =>
    obtain ⟨from_, chunk⟩ := next
    have hcount := bytesRead_append reads from_ chunk
    rw [readAll_append, length_read, ih (by omega), totalOutput_readAll,
      Nat.mod_eq_of_lt (by omega), hcount]
    omega

theorem starts_readAll (hbytes : bytesRead reads < 2 ^ 64) (stream : Stream) :
    (Output.readAll limit reads).data stream <+: bytesOf stream reads := by
  induction reads using List.reverseRecOn with
  | nil => cases stream <;> exact List.nil_prefix
  | append_singleton reads next ih =>
    obtain ⟨from_, chunk⟩ := next
    have hcount := bytesRead_append reads from_ chunk
    rw [readAll_append, data_read, bytesOf_append, totalOutput_readAll,
      Nat.mod_eq_of_lt (by omega)]
    rcases Nat.lt_or_ge limit (bytesRead reads) with hpassed | hroom
    · -- nothing is kept any more
      rw [Nat.sub_eq_zero_of_le hpassed.le, List.take_zero, ite_self, List.append_nil]
      exact (ih (by omega)).trans (List.prefix_append ..)
    · rw [whole_readAll (by omega) hroom, List.prefix_append_right_inj]
      split
      · exact List.take_prefix ..
      · exact List.prefix_refl _

/-- As long as fewer than `2 ^ 64` bytes are read, what is kept is a faithful prefix after
every read, in whatever order the chunks come. -/
theorem captured_faithful (limit : Nat) (reads : List (Stream × Chunk))
    (hbytes : bytesRead reads < 2 ^ 64) :
    FaithfulPrefix limit reads (Output.readAll limit reads) := by
  refine ⟨fun stream => starts_readAll hbytes stream, size_readAll hbytes,
    fun hlimited stream => ?_⟩
  by_cases hnone : reads = []
  · rw [hnone]
    cases stream <;> rfl
  · apply whole_readAll hbytes
    by_contra hpassed
    rw [← Bool.not_eq_true, limited_readAll_iff] at hlimited
    apply hlimited
    refine ⟨reads, List.prefix_refl _, hnone, ?_⟩
    rw [Nat.mod_eq_of_lt hbytes]
    omega

theorem captured_faithful_cut :
    FaithfulPrefix 3 [(.out, ⟨"ab".toList, by decide, by decide⟩),
        (.err, ⟨"cd".toList, by decide, by decide⟩)]
      (Output.readAll 3 [(.out, ⟨"ab".toList, by decide, by decide⟩),
        (.err, ⟨"cd".toList, by decide, by decide⟩)]) :=
  captured_faithful 3 [(.out, ⟨"ab".toList, by decide, by decide⟩),
    (.err, ⟨"cd".toList, by decide, by decide⟩)] (by decide)

/-- A chunk that fills the buffer, and one with a single byte. -/
def fullChunk : Chunk where
  bytes := List.replicate 4096 'a'
  nonempty := by
    rw [Ne, List.replicate_eq_nil_iff]
    decide
  fits := by rw [List.length_replicate]

def lastChunk : Chunk := ⟨['b'], by decide, by decide⟩

theorem bytesRead_replicate (n : Nat) :
    bytesRead (List.replicate n (Stream.out, fullChunk)) = 4096 * n := by
  have hfull : fullChunk.bytes.length = 4096 := List.length_replicate
  induction n with
  | zero => rfl
  | succ n ih =>
    rw [List.replicate_succ', bytesRead_append, ih, hfull]
    omega

/-- With the limit 1, after `2 ^ 64` bytes one more is kept. -/
theorem size_wrapped {n : Nat} (hn : 4096 * (n + 1) = 2 ^ 64) :
    let s := Output.readAll 1
      (List.replicate n (.out, fullChunk) ++ [(.out, fullChunk)] ++ [(.out, lastChunk)])
    s.stdoutData.length + s.stderrData.length = 2 := by
  have hfull : fullChunk.bytes.length = 4096 := List.length_replicate
  have hlast : lastChunk.bytes.length = 1 := rfl
  have hfront := bytesRead_replicate n
  dsimp only
  rw [readAll_append, length_read, totalOutput_readAll, bytesRead_append, readAll_append,
    length_read, totalOutput_readAll, size_readAll (by omega), hfront, hfull,
    hlast]
  omega

/-- The counter of 64 bits starts again. -/
theorem wrapped_not_faithful :
    ∃ reads : List (Stream × Chunk), ¬ FaithfulPrefix 1 reads (Output.readAll 1 reads) := by
  refine ⟨List.replicate (2 ^ 52 - 1) (.out, fullChunk) ++ [(.out, fullChunk)] ++
    [(.out, lastChunk)], fun hfaithful => ?_⟩
  have hsize := hfaithful.size
  have htwo := @size_wrapped (2 ^ 52 - 1) (by decide)
  dsimp only at htwo
  rw [htwo] at hsize
  omega

end Reads

/-! ## The loop -/

/-- How the loop of `run_captured` ends: both pipes are closed, the limit is met, or the
deadline has passed. -/
inductive LoopEnd where
  | closed
  | limited
  | expired
  deriving DecidableEq, Repr

/-- The process group of the target gets a `SIGKILL`. -/
def LoopEnd.kills : LoopEnd → Bool
  | .closed => false
  | .limited => true
  | .expired => true

/-- The reads of the two calls of `drain` of one turn. -/
def Pass.reads (pass : Pass) : List (Stream × Chunk) :=
  pass.out.chunks.map (Prod.mk .out) ++ pass.err.chunks.map (Prod.mk .err)

/-- The reads of all turns. -/
def readsOf (passes : List Pass) : List (Stream × Chunk) := passes.flatMap Pass.reads

/-- The loop of `run_captured` with its counter of 64 bits, from the reads before it on; it
refuses passes that it does not reach. -/
def outputLoop (limit : Nat) (s : Output) (outOpen errOpen : Bool) :
    List Pass → Option (Output × LoopEnd)
  | [] => if outOpen || errOpen then none else some (s, .closed)
  | pass :: passes =>
    if outOpen || errOpen then
      let s := pass.reads.foldl (fun s next => s.read limit next.1 next.2) s
      if s.outputLimited then if passes.isEmpty then some (s, .limited) else none
      else if pass.expired then if passes.isEmpty then some (s, .expired) else none
      else outputLoop limit s (outOpen && !pass.out.last.closes) (errOpen && !pass.err.last.closes)
        passes
    else none

section Loop

variable {limit : Nat} {s s' : Output} {outOpen errOpen : Bool} {pass : Pass}
  {passes : List Pass} {ending : LoopEnd} {reads : List (Stream × Chunk)}

/-- The loop has done all the reads, and it ends at the limit when the limit is met. -/
theorem outputLoop_reads (hlive : (Output.readAll limit reads).outputLimited = false)
    (h : outputLoop limit (Output.readAll limit reads) outOpen errOpen passes = some (s', ending)) :
    s' = Output.readAll limit (reads ++ readsOf passes) ∧
      (s'.outputLimited = true ↔ ending = .limited) := by
  induction passes generalizing reads outOpen errOpen with
  | nil =>
    rw [outputLoop] at h
    split at h
    · cases h
    · cases h
      refine ⟨by rw [readsOf, List.flatMap_nil, List.append_nil], ?_⟩
      rw [hlive]
      exact iff_of_false Bool.false_ne_true (by decide)
  | cons pass passes ih =>
    have hreads : pass.reads.foldl (fun s next => s.read limit next.1 next.2)
        (Output.readAll limit reads) = Output.readAll limit (reads ++ pass.reads) := by
      rw [Output.readAll, Output.readAll, List.foldl_append]
    have hall : reads ++ readsOf (pass :: passes) = reads ++ pass.reads ++ readsOf passes := by
      rw [readsOf, List.flatMap_cons, List.append_assoc]
      rfl
    have hnone : passes = [] → readsOf passes = [] := by
      rintro rfl
      rfl
    rw [outputLoop] at h
    rw [hall]
    split at h
    · rw [hreads] at h
      dsimp only at h
      split at h
      · rename_i hlimited
        split at h
        · rename_i hlast
          cases h
          rw [hnone (List.isEmpty_iff.mp hlast), List.append_nil]
          exact ⟨rfl, iff_of_true hlimited rfl⟩
        · cases h
      · rename_i hlimited
        split at h
        · split at h
          · rename_i hlast
            cases h
            rw [hnone (List.isEmpty_iff.mp hlast), List.append_nil]
            exact ⟨rfl, iff_of_false hlimited (by decide)⟩
          · cases h
        · exact ih (by simpa using hlimited) h
    · cases h

/-- The limit is met in time: some read takes the counter to it before it starts again. -/
def Reached (limit : Nat) (reads : List (Stream × Chunk)) : Prop :=
  ∃ front, front <+: reads ∧ limit ≤ bytesRead front % 2 ^ 64

/-- A limit that leaves room for one more chunk is met before the counter starts again. -/
theorem reached_of_lt (hroom : limit + 4096 < 2 ^ 64) (h : limit < bytesRead reads) :
    Reached limit reads := by
  induction reads using List.reverseRecOn with
  | nil => exact absurd h (Nat.not_lt_zero _)
  | append_singleton reads next ih =>
    obtain ⟨stream, chunk⟩ := next
    have hcount := bytesRead_append reads stream chunk
    have hfits := chunk.fits
    rcases Nat.lt_or_ge limit (bytesRead reads) with hbefore | hnow
    · obtain ⟨front, hfront, hreached⟩ := ih hbefore
      exact ⟨front, hfront.trans (List.prefix_append ..), hreached⟩
    · refine ⟨_, List.prefix_refl _, ?_⟩
      rw [Nat.mod_eq_of_lt (by omega)]
      omega

/-- The flag is set, and the target killed, exactly for more bytes than the limit: this holds
when the bytes are not as many as the limit, and when a limit that is exceeded is reached by
the counter. -/
theorem outputLimited_iff (limit : Nat) (passes : List Pass) (s : Output) (ending : LoopEnd)
    (hpositive : 1 ≤ limit) (hlimit : limit < 2 ^ 64)
    (h : outputLoop limit {} true true passes = some (s, ending)) :
    ((s.outputLimited = true ↔ limit < bytesRead (readsOf passes)) ∧
        (s.outputLimited = true → ending.kills = true)) ↔
      bytesRead (readsOf passes) ≠ limit ∧
        (limit < bytesRead (readsOf passes) → Reached limit (readsOf passes)) := by
  have hstart : (Output.readAll limit []).outputLimited = false := rfl
  obtain ⟨hall, hending⟩ := outputLoop_reads hstart h
  rw [List.nil_append] at hall
  have hkills : s.outputLimited = true → ending.kills = true := by
    intro hlimited
    rw [hending.mp hlimited]
    rfl
  have hreached : s.outputLimited = true ↔ Reached limit (readsOf passes) := by
    rw [hall, limited_readAll_iff]
    constructor
    · rintro ⟨front, hfront, _, hmet⟩
      exact ⟨front, hfront, hmet⟩
    · rintro ⟨front, hfront, hmet⟩
      refine ⟨front, hfront, ?_, hmet⟩
      rintro rfl
      exact absurd (hpositive.trans hmet) (by decide)
  rw [and_iff_left hkills, hreached]
  rcases Nat.lt_trichotomy (bytesRead (readsOf passes)) limit with hless | hequal | hmore
  · refine iff_of_true (iff_of_false ?_ (by omega)) ⟨by omega, fun hmore => by omega⟩
    rintro ⟨front, hfront, hmet⟩
    have hle := bytesRead_le_of_prefix hfront
    have hmod := Nat.mod_le (bytesRead front) (2 ^ 64)
    omega
  · -- the last read reaches the limit
    refine iff_of_false (fun hiff => ?_) fun hc => hc.1 hequal
    have hmet : Reached limit (readsOf passes) :=
      ⟨readsOf passes, List.prefix_refl _, by rw [Nat.mod_eq_of_lt (by omega)]; omega⟩
    have hmore := hiff.mp hmet
    omega
  · rw [iff_true_right hmore, and_iff_right (by omega), imp_iff_right hmore]

end Loop

/-- Two bytes on the standard output, and the end of both pipes. -/
def twoBytes : List Pass :=
  [{ out := { chunks := [⟨"ab".toList, by decide, by decide⟩], last := .eof }
     err := { last := .eof } }]

theorem outputLimited_iff_short :
    (((Output.readAll 3 (readsOf twoBytes)).outputLimited = true ↔ 3 < bytesRead (readsOf twoBytes)) ∧
        ((Output.readAll 3 (readsOf twoBytes)).outputLimited = true →
          LoopEnd.closed.kills = true)) ↔
      bytesRead (readsOf twoBytes) ≠ 3 ∧
        (3 < bytesRead (readsOf twoBytes) → Reached 3 (readsOf twoBytes)) :=
  outputLimited_iff 3 twoBytes (Output.readAll 3 (readsOf twoBytes)) .closed (by decide)
    (by decide) rfl

/-- A target that writes two bytes and exits is killed under the limit of two. -/
theorem twoBytes_limited :
    bytesRead (readsOf twoBytes) = 2 ∧
      outputLoop 2 {} true true twoBytes =
        some ({ stdoutData := "ab".toList, totalOutput := 2, outputLimited := true }, .limited) ∧
      LoopEnd.limited.kills = true := by
  decide

/-! ## The loop with its descriptors

Below `2 ^ 64` bytes the loop does what `captureLoop` does, which counts without a bound.
-/

/-- The strings, the count and the flag are the same. -/
structure SameOutput (s : Capture) (t : Output) : Prop where
  out : s.stdoutData = t.stdoutData
  err : s.stderrData = t.stderrData
  total : s.tally.totalOutput = t.totalOutput
  limited : s.tally.outputLimited = t.outputLimited

section Same

variable {limit : Nat} {s s' : Capture} {t : Output} {pass : Pass} {passes : List Pass}
  {stream : Stream} {chunks : List Chunk}

theorem foldl_read (hbytes : t.totalOutput + (chunks.map fun chunk => chunk.bytes.length).sum < 2 ^ 64) :
    let t' := (chunks.map (Prod.mk stream)).foldl (fun s next => s.read limit next.1 next.2) t
    (∀ other, t'.data other = t.data other ++
        if stream = other then (drainChunks limit t.totalOutput chunks).1 else []) ∧
      t'.totalOutput = (drainChunks limit t.totalOutput chunks).2 ∧
      t'.outputLimited = (t.outputLimited ||
        !chunks.isEmpty && decide (limit ≤ (drainChunks limit t.totalOutput chunks).2)) := by
  induction chunks generalizing t with
  | nil => exact ⟨fun other => by simp [drainChunks], rfl, by simp⟩
  | cons chunk chunks ih =>
    rw [List.map_cons, List.sum_cons] at hbytes
    have htotal : (t.read limit stream chunk).totalOutput = t.totalOutput + chunk.bytes.length :=
      Nat.mod_eq_of_lt (by omega)
    have hlimited : (t.read limit stream chunk).outputLimited =
        (t.outputLimited || decide ((t.read limit stream chunk).totalOutput ≥ limit)) := rfl
    have hkept : kept limit t.totalOutput chunk = chunk.bytes.take (limit - t.totalOutput) := by
      rw [kept]
      congr 1
      split
      · rfl
      · omega
    obtain ⟨hdata, hcount, hflag⟩ := @ih (t.read limit stream chunk) (by rw [htotal]; omega)
    rw [htotal] at hdata hcount hflag hlimited
    have htext : (drainChunks limit t.totalOutput (chunk :: chunks)).1 =
        kept limit t.totalOutput chunk ++
          (drainChunks limit (t.totalOutput + chunk.bytes.length) chunks).1 := rfl
    have hend : (drainChunks limit t.totalOutput (chunk :: chunks)).2 =
        (drainChunks limit (t.totalOutput + chunk.bytes.length) chunks).2 := rfl
    rw [List.map_cons, List.foldl_cons, htext, hend]
    refine ⟨fun other => ?_, hcount, ?_⟩
    · rw [hdata, data_read, ← hkept, List.append_assoc]
      split
      · rfl
      · rfl
    · rw [hflag, hlimited, drainChunks_total]
      cases chunks with
      | nil => simp
      | cons next rest =>
        have hmore : t.totalOutput + chunk.bytes.length ≥ limit →
            limit ≤ t.totalOutput + chunk.bytes.length +
              ((next :: rest).map fun chunk => chunk.bytes.length).sum := by omega
        rw [Bool.eq_iff_iff]
        simp only [List.isEmpty_cons, Bool.not_false, Bool.true_and, Bool.or_eq_true,
          decide_eq_true_eq]
        rw [or_assoc, or_iff_right_of_imp hmore]

theorem bytesRead_chunks (stream : Stream) (chunks : List Chunk) :
    bytesRead (chunks.map (Prod.mk stream)) = (chunks.map fun chunk => chunk.bytes.length).sum := by
  rw [bytesRead, List.map_map]
  rfl

theorem bytesRead_reads (pass : Pass) : bytesRead pass.reads = pass.size := by
  have hsplit : bytesRead pass.reads = bytesRead (pass.out.chunks.map (Prod.mk .out)) +
      bytesRead (pass.err.chunks.map (Prod.mk .err)) := by
    rw [Pass.reads, bytesRead, List.map_append, List.sum_append, bytesRead, bytesRead]
  rw [hsplit, bytesRead_chunks, bytesRead_chunks, Pass.size, Drain.size, Drain.size]

/-- One turn of the two loops. -/
theorem SameOutput.drainBoth (hs : SameOutput s t) (hbytes : t.totalOutput + pass.size < 2 ^ 64) :
    SameOutput (Sandbox.drainBoth limit s pass)
      (pass.reads.foldl (fun s next => s.read limit next.1 next.2) t) := by
  obtain ⟨hout, herr, htotal, hlimited⟩ := hs
  rw [Pass.size, Drain.size, Drain.size] at hbytes
  obtain ⟨hdata, hcount, hflag⟩ := @foldl_read limit t .out pass.out.chunks (by omega)
  have hsum := drainChunks_total limit t.totalOutput pass.out.chunks
  obtain ⟨hdata', hcount', hflag'⟩ := @foldl_read limit
    ((pass.out.chunks.map (Prod.mk .out)).foldl (fun s next => s.read limit next.1 next.2) t)
    .err pass.err.chunks (by rw [hcount, hsum]; omega)
  rw [hcount] at hdata' hcount' hflag'
  rw [Pass.reads, List.foldl_append]
  refine ⟨?_, ?_, ?_, ?_⟩
  · have h := hdata' .out
    rw [hdata .out] at h
    simp only [Output.data, reduceCtorEq, if_false, if_true, List.append_nil] at h
    rw [h, ← hout, ← htotal]
    rfl
  · have h := hdata' .err
    rw [hdata .err] at h
    simp only [Output.data, reduceCtorEq, if_false, if_true, List.append_nil] at h
    rw [h, ← herr, ← htotal]
    rfl
  · rw [hcount', ← htotal]
    rfl
  · rw [hflag', hflag, ← hlimited, ← htotal]
    rfl

/-- The two loops end alike. -/
theorem captureLoop_same (hs : SameOutput s t) (htime : s.timedOut = false)
    (hbytes : t.totalOutput + bytesRead (readsOf passes) < 2 ^ 64)
    (h : captureLoop limit s passes = some s') :
    ∃ t' ending, outputLoop limit t s.outOpen s.errOpen passes = some (t', ending) ∧
      SameOutput s' t' ∧ (s'.timedOut = true ↔ ending = .expired) := by
  induction passes generalizing s t with
  | nil =>
    rw [captureLoop] at h
    split at h
    · cases h
    · rename_i hopen
      cases h
      exact ⟨t, .closed, by rw [outputLoop, if_neg hopen], hs, by simp [htime]⟩
  | cons pass passes ih =>
    have hcount : bytesRead (readsOf (pass :: passes)) =
        pass.size + bytesRead (readsOf passes) := by
      rw [← bytesRead_reads, readsOf, List.flatMap_cons, bytesRead, List.map_append,
        List.sum_append]
      rfl
    rw [hcount] at hbytes
    have hturn := @SameOutput.drainBoth limit s t pass hs (by omega)
    have htime' : (drainBoth limit s pass).timedOut = false := htime
    rw [captureLoop] at h
    rw [outputLoop]
    split at h
    · rename_i hopen
      rw [if_pos hopen]
      dsimp only at h ⊢
      rw [← hturn.limited]
      split at h
      · rename_i hlimited
        rw [if_pos hlimited]
        split at h
        · rename_i hlast
          cases h
          refine ⟨_, .limited, if_pos hlast, hturn, iff_of_false ?_ (by decide)⟩
          rw [htime']
          exact Bool.false_ne_true
        · cases h
      · rename_i hlimited
        rw [if_neg hlimited]
        split at h
        · rename_i hexpired
          rw [if_pos hexpired]
          split at h
          · rename_i hlast
            cases h
            refine ⟨_, .expired, if_pos hlast, ?_, iff_of_true rfl rfl⟩
            exact ⟨hturn.out, hturn.err, hturn.total, hturn.limited⟩
          · cases h
        · rename_i hexpired
          rw [if_neg hexpired]
          refine ih hturn htime' ?_ h
          have htotal := drainBoth_total limit s pass
          rw [hturn.total, hs.total] at htotal
          omega
    · cases h

end Same

/-- What `run_captured` returns is what the loop with its counter of 64 bits has kept, when
there is a child and fewer than `2 ^ 64` bytes are read. -/
theorem runCaptured_output {args : List Text} {limit : Nat} {env : CaptureEnv}
    {result : Captured} {log : List (DescriptorLog.Op PipeEnd)} (hargs : args ≠ [])
    (hchild : (env.outPipe && env.errPipe && env.fork) = true)
    (hbytes : bytesRead (readsOf env.passes) < 2 ^ 64)
    (h : runCaptured args limit env = some (result, log)) :
    ∃ s ending, outputLoop limit {} true true env.passes = some (s, ending) ∧
      result.stdoutData = s.stdoutData ∧ result.stderrData = s.stderrData ∧
      result.outputLimited = s.outputLimited ∧ (result.timedOut = true ↔ ending = .expired) := by
  simp only [Bool.and_eq_true] at hchild
  obtain ⟨⟨hout, herr⟩, hfork⟩ := hchild
  rw [runCaptured, if_neg (by simp [hargs, hout]), if_neg (by simp [herr]),
    if_neg (by simp [hfork])] at h
  split at h
  · cases h
  · rename_i s hloop
    cases h
    obtain ⟨t, ending, houtput, hsame, htime⟩ := captureLoop_same (t := {})
      ⟨rfl, rfl, rfl, rfl⟩ rfl (by simpa using hbytes) hloop
    exact ⟨t, ending, houtput, hsame.out, hsame.err, hsame.limited, htime⟩

/-! ## What is kept of the standard error -/

/-- The bytes of the standard error among the first `limit` bytes that are read of the two
streams. -/
def errWithin : Nat → List (Stream × Chunk) → Nat
  | _, [] => 0
  | limit, (stream, chunk) :: reads =>
    (if stream = .err then min limit chunk.bytes.length else 0) +
      errWithin (limit - chunk.bytes.length) reads

section Kept

variable {limit total : Nat} {s s' : Capture} {chunks : List Chunk} {pass : Pass}
  {passes : List Pass} {reads reads' : List (Stream × Chunk)}

theorem errWithin_zero (reads : List (Stream × Chunk)) : errWithin 0 reads = 0 := by
  induction reads with
  | nil => rfl
  | cons next reads ih =>
    rw [errWithin, Nat.zero_min, Nat.zero_sub, ih, ite_self]

theorem errWithin_le (limit : Nat) (reads : List (Stream × Chunk)) :
    errWithin limit reads ≤ (bytesOf .err reads).length := by
  induction reads generalizing limit with
  | nil => exact Nat.le_refl 0
  | cons next reads ih =>
    obtain ⟨stream, chunk⟩ := next
    have hrest := ih (limit - chunk.bytes.length)
    have hmin := Nat.min_le_right limit chunk.bytes.length
    cases stream with
    | out =>
      rw [errWithin, if_neg (by decide), Nat.zero_add]
      exact hrest
    | err =>
      have hbytes : bytesOf .err ((.err, chunk) :: reads) = chunk.bytes ++ bytesOf .err reads := rfl
      rw [errWithin, if_pos rfl, hbytes, List.length_append]
      omega

/-- The chunks of the standard output leave less room. -/
theorem errWithin_out (limit : Nat) (chunks : List Chunk) (reads : List (Stream × Chunk)) :
    errWithin limit (chunks.map (Prod.mk .out) ++ reads) =
      errWithin (limit - (chunks.map fun chunk => chunk.bytes.length).sum) reads := by
  induction chunks generalizing limit with
  | nil => rfl
  | cons chunk chunks ih =>
    rw [List.map_cons, List.cons_append, errWithin, if_neg (by decide), Nat.zero_add, ih,
      List.map_cons, List.sum_cons, Nat.sub_sub]

/-- What is kept of chunks of the standard error, with the bytes behind them. -/
theorem drainChunks_err (limit total : Nat) (chunks : List Chunk)
    (reads : List (Stream × Chunk)) :
    (drainChunks limit total chunks).1 ++
        (bytesOf .err reads).take
          (errWithin (limit - (drainChunks limit total chunks).2) reads) =
      (bytesOf .err (chunks.map (Prod.mk .err) ++ reads)).take
        (errWithin (limit - total) (chunks.map (Prod.mk .err) ++ reads)) := by
  induction chunks generalizing total with
  | nil => rfl
  | cons chunk chunks ih =>
    have hroom : (if limit > total then limit - total else 0) = limit - total := by
      split
      · rfl
      · omega
    have hbytes : bytesOf .err ((chunk :: chunks).map (Prod.mk .err) ++ reads) =
        chunk.bytes ++ bytesOf .err (chunks.map (Prod.mk .err) ++ reads) := rfl
    have hdrain : drainChunks limit total (chunk :: chunks) =
        (kept limit total chunk ++
            (drainChunks limit (total + chunk.bytes.length) chunks).1,
          (drainChunks limit (total + chunk.bytes.length) chunks).2) := rfl
    rw [hdrain, hbytes]
    dsimp only
    rw [List.append_assoc, ih, kept, hroom, List.map_cons, List.cons_append, errWithin, if_pos rfl,
      Nat.sub_sub]
    rcases Nat.le_total chunk.bytes.length (limit - total) with hwhole | hcut
    · rw [Nat.min_eq_right hwhole, List.take_length_add_append, List.take_of_length_le hwhole]
    · -- the limit is within the chunk, and nothing behind it is kept
      rw [Nat.min_eq_left hcut, show limit - (total + chunk.bytes.length) = 0 by omega,
        errWithin_zero, List.take_zero, List.append_nil, Nat.add_zero,
        List.take_append_of_le_length hcut]

/-- One turn of the loop. -/
theorem drainBoth_err (limit : Nat) (s : Capture) (pass : Pass) (reads : List (Stream × Chunk)) :
    (drainBoth limit s pass).stderrData ++
        (bytesOf .err reads).take
          (errWithin (limit - (drainBoth limit s pass).tally.totalOutput) reads) =
      s.stderrData ++ (bytesOf .err (pass.reads ++ reads)).take
        (errWithin (limit - s.tally.totalOutput) (pass.reads ++ reads)) := by
  have hout : bytesOf .err (pass.reads ++ reads) =
      bytesOf .err (pass.err.chunks.map (Prod.mk .err) ++ reads) := by
    rw [Pass.reads, List.append_assoc, bytesOf, List.filter_append,
      List.filter_eq_nil_iff.mpr (by simp)]
    rfl
  have htotal := drainChunks_total limit s.tally.totalOutput pass.out.chunks
  have herr := drainChunks_err limit (drainChunks limit s.tally.totalOutput pass.out.chunks).2
    pass.err.chunks reads
  rw [hout, Pass.reads, List.append_assoc, errWithin_out, Nat.sub_sub, ← htotal, ← herr,
    ← List.append_assoc]
  rfl

theorem captureLoop_err (h : captureLoop limit s passes = some s') :
    s'.stderrData = s.stderrData ++ (bytesOf .err (readsOf passes)).take
      (errWithin (limit - s.tally.totalOutput) (readsOf passes)) := by
  induction passes generalizing s with
  | nil =>
    rw [captureLoop] at h
    split at h
    · cases h
    · cases h
      exact (List.append_nil _).symm
  | cons pass passes ih =>
    have hreads : readsOf (pass :: passes) = pass.reads ++ readsOf passes := List.flatMap_cons
    rw [hreads, ← drainBoth_err]
    rcases captureLoop_cons h with ⟨hlast, _, _, hstderr⟩ | hrest
    · rw [hlast, hstderr]
      exact (List.append_nil _).symm
    · exact ih hrest

/-- What `run_captured` returns of the standard error is what lies within the limit. -/
theorem runCaptured_err {args : List Text} {env : CaptureEnv} {result : Captured}
    {log : List (DescriptorLog.Op PipeEnd)} (h : runCaptured args limit env = some (result, log)) :
    result.stderrData =
      (bytesOf .err (readsOf env.passes)).take (errWithin limit (readsOf env.passes)) := by
  have hnone : ∀ {log' : List (DescriptorLog.Op PipeEnd)},
      (if env.passes.isEmpty then some (({} : Captured), log') else none) = some (result, log) →
        result.stderrData =
          (bytesOf .err (readsOf env.passes)).take (errWithin limit (readsOf env.passes)) := by
    intro log' hempty
    split at hempty
    · rename_i hpasses
      cases hempty
      rw [List.isEmpty_iff.mp hpasses]
      rfl
    · cases hempty
  rw [runCaptured] at h
  split at h
  · exact hnone h
  split at h
  · exact hnone h
  split at h
  · exact hnone h
  split at h
  · cases h
  · rename_i s hloop
    cases h
    exact captureLoop_err hloop

end Kept

end ExeCell.Sandbox
