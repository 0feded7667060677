import ExeCell.Lib.DescriptorLog
import ExeCell.Lib.WaitStatus
import ExeCell.Core.Text

/-!
# Running a program with captured output

`sandbox::run_captured` in the process that calls it: two pipes, a fork, and a loop that
drains both pipes until they have ended or the limit or the deadline ends it. What the
system calls answer is the input (`CaptureEnv`): one `Pass` for every turn of the loop,
with everything the two calls of `drain` read in it. A `CaptureEnv` that the code would
not follow to its end is refused, so that a run uses exactly the passes it is given.

The result comes with the log of what was done to the four descriptors. Both read ends
are closed once and left alone after that exactly when no pass but the last sees the end
of a pipe: a pipe that has ended is drained again as long as the other one is open.
-/

namespace ExeCell.Sandbox

open DescriptorLog

/-- `sandbox::Captured`. -/
structure Captured where
  status : Int := -1
  timedOut : Bool := false
  outputLimited : Bool := false
  stdoutData : Text := []
  stderrData : Text := []
  deriving DecidableEq, Repr

/-- The descriptors of the two pipes. -/
inductive PipeEnd where
  | outRead
  | outWrite
  | errRead
  | errWrite
  deriving DecidableEq, Repr

/-- What a `read` with a positive count has put into the buffer of 4096 bytes. -/
structure Chunk where
  bytes : Text
  nonempty : bytes ≠ []
  fits : bytes.length ≤ 4096

/-- The `read` that ends a call of `drain`. -/
inductive LastRead where
  | eof
  | fail (error : Errno)
  deriving DecidableEq, Repr

/-- Whether `drain` closes the descriptor after this read. -/
def LastRead.closes : LastRead → Bool
  | .eof => true
  | .fail error => error ≠ eagain ∧ error ≠ eintr

/-- What one call of `drain` reads. -/
structure Drain where
  chunks : List Chunk := []
  last : LastRead := .fail eagain

/-- One turn of the loop. -/
structure Pass where
  out : Drain := {}
  err : Drain := {}
  /-- The clock has passed the deadline. -/
  expired : Bool := false

/-- What the system calls answer. -/
structure CaptureEnv where
  outPipe : Bool := true
  errPipe : Bool := true
  fork : Bool := true
  passes : List Pass := []
  /-- The status that `waitpid` stores, `none` when it fails for good. -/
  wait : Option Nat := some 0

/-- The variables that both calls of `drain` share. -/
structure Tally where
  totalOutput : Nat := 0
  outputLimited : Bool := false
  log : List (Op PipeEnd) := []

/-- The variables of the loop. -/
structure Capture where
  stdoutData : Text := []
  stderrData : Text := []
  outOpen : Bool := true
  errOpen : Bool := true
  timedOut : Bool := false
  tally : Tally := {}

/-- The bytes that one `read` adds to what is kept. -/
def kept (limit total : Nat) (chunk : Chunk) : Text :=
  chunk.bytes.take (if limit > total then limit - total else 0)

/-- The loop of `drain` over the chunks: what is appended, and the new total. -/
def drainChunks (limit : Nat) : Nat → List Chunk → Text × Nat
  | total, [] => ([], total)
  | total, chunk :: chunks =>
    let (text, total') := drainChunks limit (total + chunk.bytes.length) chunks
    (kept limit total chunk ++ text, total')

/-- What a call of `drain` does to its descriptor. -/
def Drain.ops (input : Drain) (fd : PipeEnd) : List (Op PipeEnd) :=
  List.replicate (input.chunks.length + 1) (.read fd) ++
    if input.last.closes then [.close fd] else []

/-- `drain`: the new contents of `target` and of `open`, and of what it shares. -/
def drain (limit : Nat) (fd : PipeEnd) (input : Drain) (target : Text) (isOpen : Bool)
    (tally : Tally) : Text × Bool × Tally :=
  let (text, total) := drainChunks limit tally.totalOutput input.chunks
  (target ++ text, isOpen && !input.last.closes,
    { totalOutput := total
      -- some chunk took the total to the limit
      outputLimited := tally.outputLimited || !input.chunks.isEmpty && limit ≤ total
      log := tally.log ++ input.ops fd })

/-- The two calls of `drain` of one turn. -/
def drainBoth (limit : Nat) (s : Capture) (pass : Pass) : Capture :=
  let (stdoutData, outOpen, tally) :=
    drain limit .outRead pass.out s.stdoutData s.outOpen s.tally
  let (stderrData, errOpen, tally) :=
    drain limit .errRead pass.err s.stderrData s.errOpen tally
  { s with
    stdoutData := stdoutData
    stderrData := stderrData
    outOpen := outOpen
    errOpen := errOpen
    tally := tally }

/-- The loop; it refuses passes that it does not reach, and an end without a reason. -/
def captureLoop (limit : Nat) : Capture → List Pass → Option Capture
  | s, [] => if s.outOpen || s.errOpen then none else some s
  | s, pass :: passes =>
    if s.outOpen || s.errOpen then
      let t := drainBoth limit s pass
      if t.tally.outputLimited then
        if passes.isEmpty then some t else none
      else if pass.expired then
        if passes.isEmpty then some { t with timedOut := true } else none
      else captureLoop limit t passes
    else none

/-- The closes after the loop. -/
def closeOpen (s : Capture) : List (Op PipeEnd) :=
  (if s.outOpen then [.close .outRead] else []) ++
    (if s.errOpen then [.close .errRead] else [])

/-- The exit status that `run_captured` reports. -/
def captureStatus (timedOut : Bool) (status : Nat) : Int :=
  if timedOut then 124
  else if WaitStatus.ifExited status then WaitStatus.exitStatus status
  else if WaitStatus.ifSignaled status then 128 + WaitStatus.termSig status
  else -1

/-- `run_captured`, with what it does to the descriptors of its pipes. -/
def runCaptured (args : List Text) (limit : Nat) (env : CaptureEnv) :
    Option (Captured × List (Op PipeEnd)) :=
  if args = [] ∨ !env.outPipe then
    if env.passes.isEmpty then some ({}, []) else none
  else if !env.errPipe then
    if env.passes.isEmpty then some ({}, [.close .outRead, .close .outWrite]) else none
  else if !env.fork then
    if env.passes.isEmpty then
      some ({}, [.close .outRead, .close .outWrite, .close .errRead, .close .errWrite])
    else none
  else
    match captureLoop limit { tally := { log := [.close .outWrite, .close .errWrite] } }
        env.passes with
    | none => none
    | some s =>
      -- a `waitpid` that fails for good leaves the status at zero
      some ({ status := captureStatus s.timedOut (env.wait.getD 0)
              timedOut := s.timedOut
              outputLimited := s.tally.outputLimited
              stdoutData := s.stdoutData
              stderrData := s.stderrData },
            s.tally.log ++ closeOpen s)

/-! ## The log of the loop -/

/-- A pipe ends in this pass. -/
def Pass.ends (pass : Pass) : Bool := pass.out.last.closes || pass.err.last.closes

/-- The read end of each of the two streams. -/
inductive Stream where
  | out
  | err
  deriving DecidableEq, Repr

def Stream.readEnd : Stream → PipeEnd
  | .out => .outRead
  | .err => .errRead

def Pass.drain (pass : Pass) : Stream → Drain
  | .out => pass.out
  | .err => pass.err

def Capture.isOpen (s : Capture) : Stream → Bool
  | .out => s.outOpen
  | .err => s.errOpen

theorem opsOn_drain_self (input : Drain) (fd : PipeEnd) :
    opsOn fd (input.ops fd) = input.ops fd := by
  apply List.filter_eq_self.mpr
  intro op hop
  rcases List.mem_append.mp hop with hop | hop
  · rw [List.eq_of_mem_replicate hop]
    simp [Op.fd]
  · rw [List.mem_ite_nil_right, List.mem_singleton] at hop
    rw [hop.2]
    simp [Op.fd]

theorem opsOn_drain_of_ne {fd other : PipeEnd} (h : fd ≠ other) (input : Drain) :
    opsOn other (input.ops fd) = [] := by
  apply opsOn_eq_nil.mpr
  intro op hop
  have hself : op ∈ opsOn fd (input.ops fd) := by rwa [opsOn_drain_self]
  rw [(mem_opsOn.mp hself).2]
  exact h

section Passes

variable {limit : Nat} {s s' : Capture} {pass : Pass} {passes : List Pass} {stream : Stream}

theorem drainBoth_opsOn :
    opsOn stream.readEnd (drainBoth limit s pass).tally.log =
      opsOn stream.readEnd s.tally.log ++ (pass.drain stream).ops stream.readEnd := by
  have hlog : (drainBoth limit s pass).tally.log =
      s.tally.log ++ pass.out.ops .outRead ++ pass.err.ops .errRead := rfl
  rw [hlog, opsOn_append, opsOn_append]
  cases stream with
  | out =>
    rw [Stream.readEnd, opsOn_drain_self, opsOn_drain_of_ne (by decide), List.append_nil,
      Pass.drain]
  | err =>
    rw [Stream.readEnd, opsOn_drain_self, opsOn_drain_of_ne (by decide), List.append_nil,
      Pass.drain]

theorem drainBoth_isOpen :
    (drainBoth limit s pass).isOpen stream =
      (s.isOpen stream && !(pass.drain stream).last.closes) := by
  cases stream <;> rfl

/-- Both pipes are open, and their read ends have only been read. -/
def Fresh (s : Capture) : Prop :=
  ∀ stream : Stream, s.isOpen stream ∧
    ∃ n, opsOn stream.readEnd s.tally.log = List.replicate n (.read stream.readEnd)

theorem ends_eq_false : pass.ends = false ↔ ∀ stream, (pass.drain stream).last.closes = false := by
  rw [Pass.ends, Bool.or_eq_false_iff]
  constructor
  · rintro ⟨hout, herr⟩ stream
    cases stream with
    | out => exact hout
    | err => exact herr
  · intro h
    exact ⟨h .out, h .err⟩

theorem Fresh.drainBoth (hs : Fresh s) (hends : pass.ends = false) :
    Fresh (drainBoth limit s pass) := by
  intro stream
  obtain ⟨hopen, n, hops⟩ := hs stream
  have hkeeps := ends_eq_false.mp hends stream
  have hstill : (Sandbox.drainBoth limit s pass).isOpen stream = true := by
    rw [drainBoth_isOpen, hopen, hkeeps]
    rfl
  refine ⟨hstill, n + ((pass.drain stream).chunks.length + 1), ?_⟩
  rw [drainBoth_opsOn, hops, Drain.ops, hkeeps, if_neg (by decide), List.append_nil,
    List.replicate_append_replicate]

theorem closeOpen_opsOn :
    opsOn stream.readEnd (closeOpen s) =
      if s.isOpen stream then [.close stream.readEnd] else [] := by
  cases stream with
  | out =>
    rw [closeOpen, opsOn_append, Stream.readEnd, Capture.isOpen]
    cases s.outOpen <;> cases s.errOpen <;> rfl
  | err =>
    rw [closeOpen, opsOn_append, Stream.readEnd, Capture.isOpen]
    cases s.outOpen <;> cases s.errOpen <;> rfl

/-- The last turn of the loop, followed by the closes after it. -/
theorem Fresh.closedOnce_last (hs : Fresh s) (stream : Stream) :
    ClosedOnce ((Sandbox.drainBoth limit s pass).tally.log ++
      closeOpen (Sandbox.drainBoth limit s pass)) stream.readEnd := by
  obtain ⟨hopen, n, hops⟩ := hs stream
  refine closedOnce_iff.mpr ⟨n + ((pass.drain stream).chunks.length + 1), ?_⟩
  rw [opsOn_append, drainBoth_opsOn, closeOpen_opsOn, drainBoth_isOpen, hops, hopen, Drain.ops]
  cases hcloses : (pass.drain stream).last.closes with
  | true =>
    rw [if_pos rfl, if_neg (by decide), List.append_nil, ← List.append_assoc,
      List.replicate_append_replicate]
  | false =>
    rw [if_neg (by decide), if_pos (by decide), List.append_nil,
      List.replicate_append_replicate]

/-- A turn of the loop is its last one, or the loop goes on. -/
theorem captureLoop_cons (h : captureLoop limit s (pass :: passes) = some s') :
    (passes = [] ∧ s'.tally = (drainBoth limit s pass).tally ∧
      closeOpen s' = closeOpen (drainBoth limit s pass) ∧
      s'.stderrData = (drainBoth limit s pass).stderrData) ∨
    captureLoop limit (drainBoth limit s pass) passes = some s' := by
  rw [captureLoop] at h
  split at h
  · dsimp only at h
    split at h
    · split at h
      · rename_i hlast
        obtain rfl := Option.some.inj h
        exact Or.inl ⟨List.isEmpty_iff.mp hlast, rfl, rfl, rfl⟩
      · cases h
    · split at h
      · split at h
        · rename_i hlast
          obtain rfl := Option.some.inj h
          exact Or.inl ⟨List.isEmpty_iff.mp hlast, rfl, rfl, rfl⟩
        · cases h
      · exact Or.inr h
  · cases h

theorem captureLoop_nil (h : captureLoop limit s [] = some s') : s' = s := by
  rw [captureLoop] at h
  split at h
  · cases h
  · exact (Option.some.inj h).symm

theorem captureLoop_log (h : captureLoop limit s passes = some s') :
    ∃ more, s'.tally.log = s.tally.log ++ more := by
  induction passes generalizing s with
  | nil => exact ⟨[], by rw [captureLoop_nil h, List.append_nil]⟩
  | cons pass passes ih =>
    have hlog : (drainBoth limit s pass).tally.log =
        s.tally.log ++ (pass.out.ops .outRead ++ pass.err.ops .errRead) :=
      List.append_assoc ..
    rcases captureLoop_cons h with ⟨_, htally, _⟩ | hrest
    · exact ⟨_, htally ▸ hlog⟩
    · obtain ⟨more, hmore⟩ := ih hrest
      rw [hmore, hlog, List.append_assoc]
      exact ⟨_, rfl⟩

/-- When the loop turns again after a pipe has ended, it reads the closed descriptor. -/
theorem usedAfterClose_of_ends {next : Pass} {rest : List Pass}
    (hcloses : (pass.drain stream).last.closes = true)
    (h : captureLoop limit (drainBoth limit s pass) (next :: rest) = some s') :
    UsedAfterClose s'.tally.log stream.readEnd := by
  have hused : UsedAfterClose (drainBoth limit (drainBoth limit s pass) next).tally.log
      stream.readEnd := by
    refine ⟨opsOn stream.readEnd s.tally.log ++
      List.replicate ((pass.drain stream).chunks.length + 1) (.read stream.readEnd),
      .read stream.readEnd,
      List.replicate (next.drain stream).chunks.length (.read stream.readEnd) ++
        if (next.drain stream).last.closes then [.close stream.readEnd] else [], ?_⟩
    rw [drainBoth_opsOn, drainBoth_opsOn, Drain.ops, hcloses, if_pos rfl, Drain.ops,
      List.replicate_succ (n := (next.drain stream).chunks.length)]
    simp only [List.append_assoc, List.cons_append, List.nil_append]
  rcases captureLoop_cons h with ⟨_, htally, _⟩ | hrest
  · rw [htally]
    exact hused
  · obtain ⟨more, hmore⟩ := captureLoop_log hrest
    rw [hmore]
    exact hused.append more

theorem captureLoop_closedOnce_iff (hs : Fresh s) (h : captureLoop limit s passes = some s') :
    (∀ stream : Stream, ClosedOnce (s'.tally.log ++ closeOpen s') stream.readEnd) ↔
      ∀ pass ∈ passes.dropLast, pass.ends = false := by
  induction passes generalizing s with
  | nil =>
    have hopen := (hs .out).1
    rw [captureLoop, if_pos (by rw [Bool.or_eq_true]; exact Or.inl hopen)] at h
    cases h
  | cons pass passes ih =>
    cases passes with
    | nil =>
      have hend : s'.tally.log ++ closeOpen s' =
          (drainBoth limit s pass).tally.log ++ closeOpen (drainBoth limit s pass) := by
        rcases captureLoop_cons h with ⟨_, htally, hclose, _⟩ | hrest
        · rw [htally, hclose]
        · rw [captureLoop_nil hrest]
      rw [hend]
      refine ⟨fun _ => ?_, fun _ stream => hs.closedOnce_last stream⟩
      intro p hp
      simp at hp
    | cons next rest =>
      have hgoes : captureLoop limit (drainBoth limit s pass) (next :: rest) = some s' := by
        rcases captureLoop_cons h with ⟨hnil, _⟩ | hrest
        · cases hnil
        · exact hrest
      rw [List.dropLast_cons_cons, List.forall_mem_cons]
      by_cases hends : pass.ends = false
      · rw [ih (hs.drainBoth hends) hgoes]
        exact ⟨fun hrest => ⟨hends, hrest⟩, fun hall => hall.2⟩
      · refine ⟨fun hclosed => ?_, fun hall => absurd hall.1 hends⟩
        rw [ends_eq_false, not_forall] at hends
        obtain ⟨stream, hcloses⟩ := hends
        have hused := usedAfterClose_of_ends (Bool.of_not_eq_false hcloses) hgoes
        exact absurd (hclosed stream) (hused.append _).not_closedOnce

end Passes

/-! ## The whole call -/

/-- In every call that has both its pipes, whatever is read from them and wherever the
limit or the deadline ends it, both read ends are closed exactly once and not touched
after that if and only if no pass of the loop but the last sees a pipe end. -/
theorem runCaptured_closedOnce_iff {args : List Text} {limit : Nat} {env : CaptureEnv}
    {result : Captured} {log : List (Op PipeEnd)} (hargs : args ≠ [])
    (hout : env.outPipe = true) (herr : env.errPipe = true)
    (h : runCaptured args limit env = some (result, log)) :
    (ClosedOnce log .outRead ∧ ClosedOnce log .errRead) ↔
      ∀ pass ∈ env.passes.dropLast, pass.ends = false := by
  have hstreams : (ClosedOnce log .outRead ∧ ClosedOnce log .errRead) ↔
      ∀ stream : Stream, ClosedOnce log stream.readEnd := by
    refine ⟨?_, fun hall => ⟨hall .out, hall .err⟩⟩
    rintro ⟨ho, he⟩ stream
    cases stream with
    | out => exact ho
    | err => exact he
  rw [runCaptured, if_neg (by simp [hargs, hout]), if_neg (by simp [herr])] at h
  split at h
  · -- without a child both pipes are closed at once and nothing is read
    split at h
    · rename_i hpasses
      cases h
      rw [List.isEmpty_iff.mp hpasses]
      refine ⟨fun _ p hp => by simp at hp, fun _ => ?_⟩
      exact ⟨closedOnce_iff.mpr ⟨0, by decide⟩, closedOnce_iff.mpr ⟨0, by decide⟩⟩
    · cases h
  · split at h
    · cases h
    · rename_i s hloop
      cases h
      rw [hstreams]
      refine captureLoop_closedOnce_iff ?_ hloop
      intro stream
      cases stream with
      | out => exact ⟨rfl, 0, by decide⟩
      | err => exact ⟨rfl, 0, by decide⟩

/-- The program writes a line, and both pipes end in the next turn of the loop. -/
def promptEnv : CaptureEnv where
  passes :=
    [{ out := { chunks := [⟨"hello\n".toList, by decide, by decide⟩] } },
      { out := { last := .eof }, err := { last := .eof } }]

theorem runCaptured_closedOnce_prompt :
    ∃ result log, runCaptured ["/bin/true".toList] 100 promptEnv = some (result, log) ∧
      ClosedOnce log .outRead ∧ ClosedOnce log .errRead := by
  obtain ⟨⟨result, log⟩, hrun⟩ : ∃ run, runCaptured ["/bin/true".toList] 100 promptEnv = some run :=
    ⟨_, rfl⟩
  have hargs : ["/bin/true".toList] ≠ [] := List.cons_ne_nil _ _
  refine ⟨result, log, hrun, (runCaptured_closedOnce_iff hargs rfl rfl hrun).mpr ?_⟩
  decide

/-- The standard output ends one turn before the standard error. -/
def staggeredEnv : CaptureEnv where
  passes :=
    [{ out := { last := .eof } }, { out := { last := .fail 9 }, err := { last := .eof } }]

/-- The closed read end of the standard output is read and closed again. -/
theorem runCaptured_staggered_reuses :
    ∃ result log, runCaptured ["/bin/true".toList] 100 staggeredEnv = some (result, log) ∧
      ¬ ClosedOnce log .outRead := by
  refine ⟨_, _, rfl, ?_⟩
  rintro ⟨hcount, _⟩
  revert hcount
  decide

end ExeCell.Sandbox
