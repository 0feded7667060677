import ExeCell.Lib.Machine
import ExeCell.Sandbox.Capture

/-!
# Pipes of concurrent captures

Several calls of `run_captured` in one process, as the workers of `observe` make them. A
descriptor is known by the call whose pipe it belongs to; the process has one table of
them for all calls, a fork copies the table, and nothing is marked close-on-exec, so that
`exec` changes nothing. A step is one system call: of a call, of the child it has forked
on its way to `sandbox::run`, or of any process of the tree that grows from there.

Processes of one call never get hold of a pipe of another exactly when every fork happens
while the other calls have no pipe open (`separate_iff`).
-/

namespace ExeCell.Sandbox

/-- An end of a pipe of a call. -/
structure Descriptor where
  call : Nat
  pipeEnd : PipeEnd
  deriving DecidableEq, Repr

/-- A descriptor number in a forked process: the number that the pipe had in the calling
process, or one of the two that `dup2` overwrites. -/
inductive Fd where
  | inherited (descriptor : Descriptor)
  | stdout
  | stderr
  deriving DecidableEq, Repr

/-- What the child does before it calls `sandbox::run`. -/
inductive ChildCall where
  | dup2 (source : PipeEnd) (target : Fd)
  | close (pipeEnd : PipeEnd)
  deriving DecidableEq, Repr

def childCalls : List ChildCall :=
  [.dup2 .outWrite .stdout, .dup2 .errWrite .stderr, .close .outRead, .close .outWrite,
    .close .errRead, .close .errWrite]

/-- A process of the tree of a call. -/
structure Forked where
  call : Nat
  pending : List ChildCall := []
  table : List (Fd × Descriptor)
  deriving DecidableEq, Repr

/-- Where a call stands. -/
inductive CallPhase where
  | outPipe
  | errPipe
  | fork
  /-- About to close these ends; `reads` says whether it then reads the pipes. -/
  | closing (ends : List PipeEnd) (reads : Bool)
  | reading
  | returned
  deriving DecidableEq, Repr

/-- Bytes in a pipe, or already read from it. -/
structure Written where
  /-- The pipe belongs to this call. -/
  call : Nat
  stream : Stream
  /-- The bytes come from a process of this call. -/
  writer : Nat
  bytes : Text
  deriving DecidableEq, Repr

structure Captures where
  calls : List CallPhase := []
  /-- The open pipe ends of the process that makes the calls. -/
  table : List Descriptor := []
  processes : List Forked := []
  inPipes : List Written := []
  /-- What has been read into the `stdout_data` and `stderr_data` of the calls. -/
  captured : List Written := []
  deriving DecidableEq, Repr

inductive CaptureMove where
  /-- Another thread enters `run_captured`. -/
  | enter
  /-- The next system call of a call, and whether it succeeds. -/
  | call (c : Nat) (ok : Bool)
  | read (c : Nat) (stream : Stream)
  /-- The call has seen the end of a pipe, or gives it up. -/
  | closeRead (c : Nat) (stream : Stream)
  /-- The next call of a child on its way to `sandbox::run`. -/
  | child (p : Nat) (ok : Bool)
  /-- A process of a tree forks. -/
  | spawn (p : Nat)
  | write (p : Nat) (fd : Fd) (bytes : Text)
  | close (p : Nat) (fd : Fd)
  | exit (p : Nat)
  deriving DecidableEq, Repr

def Stream.writeEnd : Stream → PipeEnd
  | .out => .outWrite
  | .err => .errWrite

/-- The stream that a write end belongs to. -/
def PipeEnd.writes : PipeEnd → Option Stream
  | .outWrite => some .out
  | .errWrite => some .err
  | .outRead => none
  | .errRead => none

namespace Captures

def setPhase (s : Captures) (c : Nat) (phase : CallPhase) : Captures :=
  { s with calls := s.calls.set c phase }

def openPipe (s : Captures) (c : Nat) (ends : List PipeEnd) : Captures :=
  { s with table := s.table ++ ends.map fun e => ⟨c, e⟩ }

def closeEnd (s : Captures) (c : Nat) (e : PipeEnd) : Captures :=
  { s with table := s.table.filter (· ≠ ⟨c, e⟩) }

/-- A process with everything that the calling process has open. -/
def forkChild (s : Captures) (c : Nat) : Captures :=
  { s with processes := s.processes ++
      [{ call := c, pending := childCalls, table := s.table.map fun d => (.inherited d, d) }] }

end Captures

/-- The system calls of `run_captured`, up to its loop. -/
def callStep (s : Captures) (c : Nat) (ok : Bool) : Option Captures :=
  match s.calls[c]? with
  | none => none
  | some .outPipe =>
    if ok then some ((s.openPipe c [.outRead, .outWrite]).setPhase c .errPipe)
    else some (s.setPhase c .returned)
  | some .errPipe =>
    if ok then some ((s.openPipe c [.errRead, .errWrite]).setPhase c .fork)
    else some (s.setPhase c (.closing [.outRead, .outWrite] false))
  | some .fork =>
    if ok then some ((s.forkChild c).setPhase c (.closing [.outWrite, .errWrite] true))
    else some (s.setPhase c (.closing [.outRead, .outWrite, .errRead, .errWrite] false))
  | some (.closing (e :: ends) reads) =>
    some ((s.closeEnd c e).setPhase c (.closing ends reads))
  | some (.closing [] reads) => some (s.setPhase c (if reads then .reading else .returned))
  | some .reading => none
  | some .returned => none

namespace Forked

def dup2 (p : Forked) (source : PipeEnd) (target : Fd) : Forked :=
  { p with table := (target, ⟨p.call, source⟩) :: p.table.filter (·.1 ≠ target) }

def closeFd (p : Forked) (fd : Fd) : Forked :=
  { p with table := p.table.filter (·.1 ≠ fd) }

/-- The next call on the way to `sandbox::run`; the results of all of them are ignored. -/
def step (p : Forked) (ok : Bool) : Option Forked :=
  match p.pending with
  | [] => none
  | .dup2 source target :: rest =>
    some (if ok then { p.dup2 source target with pending := rest } else { p with pending := rest })
  | .close e :: rest => some { p.closeFd (.inherited ⟨p.call, e⟩) with pending := rest }

end Forked

def captureStep (s : Captures) (move : CaptureMove) : Option (Unit × Captures) :=
  let result : Option Captures :=
    match move with
    | .enter => some { s with calls := s.calls ++ [.outPipe] }
    | .call c ok => callStep s c ok
    | .read c stream =>
      if s.calls[c]? = some .reading ∧ ⟨c, stream.readEnd⟩ ∈ s.table then
        let (mine, others) := s.inPipes.partition fun w => w.call = c ∧ w.stream = stream
        some { s with inPipes := others, captured := s.captured ++ mine }
      else none
    | .closeRead c stream =>
      if s.calls[c]? = some .reading then some (s.closeEnd c stream.readEnd) else none
    | .child p ok =>
      match s.processes[p]? with
      | none => none
      | some process =>
        (process.step ok).map fun process' => { s with processes := s.processes.set p process' }
    | .spawn p =>
      match s.processes[p]? with
      | none => none
      | some process =>
        if process.pending = [] then some { s with processes := s.processes ++ [process] }
        else none
    | .write p fd bytes =>
      match s.processes[p]? with
      | none => none
      | some process =>
        match process.table.lookup fd with
        | none => none
        | some d =>
          match d.pipeEnd.writes with
          | none => none
          | some stream =>
            some { s with inPipes := s.inPipes ++
              [{ call := d.call, stream := stream, writer := process.call, bytes := bytes }] }
    | .close p fd =>
      match s.processes[p]? with
      | none => none
      | some process => some { s with processes := s.processes.set p (process.closeFd fd) }
    | .exit p => some { s with processes := s.processes.eraseIdx p }
  result.map fun t => ((), t)

/-! ## Separation -/

/-- No process has the write end of the stream of a call open: a read that finds the pipe
empty returns the end of the file. -/
def EndOfFile (s : Captures) (c : Nat) (stream : Stream) : Prop :=
  ⟨c, stream.writeEnd⟩ ∉ s.table ∧
    ∀ p ∈ s.processes, ∀ entry ∈ p.table, entry.2 ≠ ⟨c, stream.writeEnd⟩

/-- The same, looking at the processes of the call only. -/
def OwnTreeDone (s : Captures) (c : Nat) (stream : Stream) : Prop :=
  ⟨c, stream.writeEnd⟩ ∉ s.table ∧
    ∀ p ∈ s.processes, p.call = c → ∀ entry ∈ p.table, entry.2 ≠ ⟨c, stream.writeEnd⟩

structure Separate (s : Captures) : Prop where
  held : ∀ p ∈ s.processes, ∀ entry ∈ p.table, entry.2.call = p.call
  captured : ∀ w ∈ s.inPipes ++ s.captured, w.writer = w.call
  endOfFile : ∀ c stream, EndOfFile s c stream ↔ OwnTreeDone s c stream

/-- When the step is the fork of a call, no other call has a pipe end open. -/
def ForksAlone (s : Captures) (move : CaptureMove) : Prop :=
  match move with
  | .call c true => s.calls[c]? = some .fork → ∀ d ∈ s.table, d.call = c
  | _ => True

instance (s : Captures) (move : CaptureMove) : Decidable (ForksAlone s move) := by
  unfold ForksAlone
  split <;> infer_instance

/-- Every descriptor of the process belongs to its own call. -/
def Forked.Own (p : Forked) : Prop := ∀ entry ∈ p.table, entry.2.call = p.call

theorem Forked.Own.closeFd {p : Forked} (hp : p.Own) (fd : Fd) : (p.closeFd fd).Own := by
  intro entry hentry
  exact hp entry (List.mem_of_mem_filter hentry)

theorem Forked.Own.dup2 {p : Forked} (hp : p.Own) (source : PipeEnd) (target : Fd) :
    (p.dup2 source target).Own := by
  intro entry hentry
  rcases List.mem_cons.mp hentry with rfl | hentry
  · rfl
  · exact hp entry (List.mem_of_mem_filter hentry)

theorem Forked.Own.step {p p' : Forked} {ok : Bool} (hp : p.Own) (h : p.step ok = some p') :
    p'.Own := by
  rw [Forked.step.eq_def] at h
  split at h
  · cases h
  · rename_i source target rest hpending
    obtain rfl := Option.some.inj h
    split
    · exact hp.dup2 source target
    · exact hp
  · obtain rfl := Option.some.inj h
    exact hp.closeFd _

section Separation

variable {s t : Captures} {move : CaptureMove} {u : Unit}

/-- The first two parts of `Separate` give the third. -/
theorem separate_of (hheld : ∀ p ∈ s.processes, p.Own)
    (hcaptured : ∀ w ∈ s.inPipes ++ s.captured, w.writer = w.call) : Separate s := by
  refine ⟨hheld, hcaptured, ?_⟩
  intro c stream
  constructor
  · rintro ⟨htable, hall⟩
    exact ⟨htable, fun p hp _ entry hentry => hall p hp entry hentry⟩
  · rintro ⟨htable, hown⟩
    refine ⟨htable, ?_⟩
    intro p hp entry hentry heq
    have hcall := hheld p hp entry hentry
    rw [heq] at hcall
    exact hown p hp hcall.symm entry hentry heq

/-- What a step of a call does to the processes. -/
theorem callStep_frame {c : Nat} {ok : Bool} (h : callStep s c ok = some t) :
    t.inPipes = s.inPipes ∧ t.captured = s.captured ∧
    (t.processes = s.processes ∨
      (ok = true ∧ s.calls[c]? = some .fork ∧ t.processes = (s.forkChild c).processes)) := by
  rw [callStep.eq_def] at h
  split at h
  · cases h
  · split at h <;> (obtain rfl := Option.some.inj h; exact ⟨rfl, rfl, Or.inl rfl⟩)
  · split at h <;> (obtain rfl := Option.some.inj h; exact ⟨rfl, rfl, Or.inl rfl⟩)
  · rename_i hphase
    split at h
    · rename_i hok
      obtain rfl := Option.some.inj h
      exact ⟨rfl, rfl, Or.inr ⟨hok, hphase, rfl⟩⟩
    · obtain rfl := Option.some.inj h
      exact ⟨rfl, rfl, Or.inl rfl⟩
  · obtain rfl := Option.some.inj h
    exact ⟨rfl, rfl, Or.inl rfl⟩
  · obtain rfl := Option.some.inj h
    exact ⟨rfl, rfl, Or.inl rfl⟩
  · cases h
  · cases h

theorem forkChild_own {c : Nat} (hs : ∀ p ∈ s.processes, p.Own) (halone : ∀ d ∈ s.table, d.call = c) :
    ∀ p ∈ (s.forkChild c).processes, p.Own := by
  intro p hp
  rcases List.mem_append.mp hp with hp | hp
  · exact hs p hp
  · rw [List.mem_singleton.mp hp]
    intro entry hentry
    obtain ⟨d, hd, rfl⟩ := List.mem_map.mp hentry
    exact halone d hd

theorem set_own {i : Nat} {p' : Forked} (hs : ∀ p ∈ s.processes, p.Own) (hp' : p'.Own) :
    ∀ p ∈ s.processes.set i p', p.Own := by
  intro p hp
  rcases List.mem_or_eq_of_mem_set hp with hold | rfl
  · exact hs p hold
  · exact hp'

/-- A process that forks has the same descriptors twice. -/
theorem append_own {p : Forked} (hs : ∀ p ∈ s.processes, p.Own) (hp : p ∈ s.processes) :
    ∀ p' ∈ s.processes ++ [p], p'.Own := by
  intro p' hp'
  rcases List.mem_append.mp hp' with hold | hnew
  · exact hs p' hold
  · rw [List.mem_singleton.mp hnew]
    exact hs p hp

/-- What is read from a pipe was in it. -/
theorem captured_read (hs : Separate s) (mine : Written → Bool) :
    ∀ w ∈ (s.inPipes.partition mine).2 ++ (s.captured ++ (s.inPipes.partition mine).1),
      w.writer = w.call := by
  intro w hw
  apply hs.captured w
  simp only [List.partition_eq_filter_filter, List.mem_append, List.mem_filter] at hw ⊢
  rcases hw with ⟨hw, _⟩ | hw | ⟨hw, _⟩
  · exact Or.inl hw
  · exact Or.inr hw
  · exact Or.inl hw

/-- A process whose descriptors belong to its own call writes to its own pipes only. -/
theorem captured_write {p : Forked} {fd : Fd} {d : Descriptor} {stream : Stream} {bytes : Text}
    (hs : Separate s) (hp : p.Own) (hd : p.table.lookup fd = some d) :
    ∀ w ∈ s.inPipes ++ [{ call := d.call, stream := stream, writer := p.call, bytes := bytes }] ++
      s.captured, w.writer = w.call := by
  intro w hw
  simp only [List.mem_append, List.mem_singleton] at hw
  rcases hw with (hw | rfl) | hw
  · exact hs.captured w (List.mem_append_left _ hw)
  · obtain ⟨before, after, htable, _⟩ := List.lookup_eq_some_iff.mp hd
    exact (hp (fd, d) (by simp [htable])).symm
  · exact hs.captured w (List.mem_append_right _ hw)

theorem captureStep_separate (hs : Separate s) (halone : ForksAlone s move)
    (h : captureStep s move = some (u, t)) : Separate t := by
  have hown : ∀ p ∈ s.processes, p.Own := hs.held
  obtain ⟨t', ht', heq⟩ := Option.map_eq_some_iff.mp h
  cases heq
  cases move with
  | enter =>
    obtain rfl := Option.some.inj ht'
    exact separate_of hown hs.captured
  | call c ok =>
    obtain ⟨hpipes, hcaptured, hprocesses⟩ := callStep_frame ht'
    refine separate_of ?_ (by rw [hpipes, hcaptured]; exact hs.captured)
    rcases hprocesses with hsame | ⟨rfl, hphase, hforked⟩
    · rw [hsame]
      exact hown
    · rw [hforked]
      exact forkChild_own hown (halone hphase)
  | read c stream =>
    dsimp only at ht'
    split at ht'
    · obtain rfl := Option.some.inj ht'
      exact separate_of hown (captured_read hs _)
    · cases ht'
  | closeRead c stream =>
    dsimp only at ht'
    split at ht'
    · obtain rfl := Option.some.inj ht'
      exact separate_of hown hs.captured
    · cases ht'
  | child i ok =>
    dsimp only at ht'
    split at ht'
    · cases ht'
    · rename_i p hp
      obtain ⟨p', hp', rfl⟩ := Option.map_eq_some_iff.mp ht'
      have hown' := (hown p (List.mem_of_getElem? hp)).step hp'
      exact separate_of (set_own hown hown') hs.captured
  | spawn i =>
    dsimp only at ht'
    split at ht'
    · cases ht'
    · rename_i p hp
      split at ht'
      · obtain rfl := Option.some.inj ht'
        exact separate_of (append_own hown (List.mem_of_getElem? hp)) hs.captured
      · cases ht'
  | write i fd bytes =>
    dsimp only at ht'
    split at ht'
    · cases ht'
    · rename_i p hp
      split at ht'
      · cases ht'
      · rename_i d hd
        split at ht'
        · cases ht'
        · obtain rfl := Option.some.inj ht'
          have hp' := hown p (List.mem_of_getElem? hp)
          exact separate_of hown (captured_write hs hp' hd)
  | close i fd =>
    dsimp only at ht'
    split at ht'
    · cases ht'
    · rename_i p hp
      obtain rfl := Option.some.inj ht'
      have hown' := (hown p (List.mem_of_getElem? hp)).closeFd fd
      exact separate_of (set_own hown hown') hs.captured
  | exit i =>
    obtain rfl := Option.some.inj ht'
    exact separate_of (fun p hp => hown p (List.mem_of_mem_eraseIdx hp)) hs.captured

/-- A fork that is not alone hands a pipe of another call to the new process. -/
theorem captureStep_not_separate (h : captureStep s move = some (u, t))
    (halone : ¬ ForksAlone s move) : ¬ Separate t := by
  intro hseparate
  apply halone
  rw [ForksAlone.eq_def]
  split
  · rename_i c
    intro hphase d hd
    obtain ⟨t', ht', heq⟩ := Option.map_eq_some_iff.mp h
    cases heq
    change callStep s c true = some t at ht'
    rw [callStep.eq_def, hphase] at ht'
    obtain rfl := Option.some.inj ht'
    exact hseparate.held
      { call := c, pending := childCalls, table := s.table.map fun d => (.inherited d, d) }
      (List.mem_append_right _ (List.mem_singleton.mpr rfl)) (.inherited d, d)
      (List.mem_map.mpr ⟨d, hd, rfl⟩)
  · trivial

end Separation

/-- Take any number of calls and any interleaving of their system calls, of their
children's, and of what the programs in these do. In every state of the run a process
holds only pipes of its own call, what is captured comes from there, and the end of a
pipe depends on nobody else, if and only if every fork happens while no other call has a
pipe end open. -/
theorem separate_iff {s : Captures} {moves : List CaptureMove} {outputs : List Unit}
    (hrun : Machine.run captureStep {} moves = some (outputs, s)) :
    Machine.Always captureStep Separate {} moves ↔
      Machine.Along captureStep ForksAlone {} moves := by
  refine Machine.always_iff_along Separate ForksAlone
    (fun _ _ _ _ _ hs halone hstep => captureStep_separate hs halone hstep)
    (fun _ _ _ _ _ _ hstep halone => captureStep_not_separate hstep halone) ?_ hrun
  exact separate_of (by simp) (by simp)

/-- A call from its first pipe to the closes after its fork, and its child's way to
`sandbox::run` as process `p`. -/
def captureMoves (c p : Nat) : List CaptureMove :=
  List.replicate 6 (.call c true) ++ List.replicate 6 (.child p true)

/-- Two calls, of which the second starts when the first has read everything. -/
def successiveMoves : List CaptureMove :=
  let outcome : List CaptureMove :=
    [.write 0 .stdout "hello".toList, .exit 0, .read 0 .out, .closeRead 0 .out, .closeRead 0 .err]
  .enter :: .enter :: captureMoves 0 0 ++ outcome ++ captureMoves 1 0

theorem separate_successiveMoves :
    ∃ outputs s, Machine.run captureStep {} successiveMoves = some (outputs, s) ∧
      Machine.Always captureStep Separate {} successiveMoves := by
  obtain ⟨⟨outputs, s⟩, hrun⟩ : ∃ r, Machine.run captureStep {} successiveMoves = some r :=
    ⟨_, rfl⟩
  refine ⟨outputs, s, hrun, (separate_iff hrun).mpr ?_⟩
  decide

/-- The second call forks between the two pipes and the fork of the first. -/
def overlappingMoves : List CaptureMove :=
  [.enter, .enter, .call 0 true, .call 1 true, .call 1 true, .call 1 true]

/-- The process of the second call holds both ends of a pipe of the first. -/
theorem overlappingMoves_not_separate :
    ∃ outputs s, Machine.run captureStep {} overlappingMoves = some (outputs, s) ∧
      ¬ Machine.Always captureStep Separate {} overlappingMoves := by
  refine ⟨_, _, rfl, ?_⟩
  intro halways
  have hlast : Separate _ := halways.last rfl
  have hheld := hlast.held _ (List.mem_singleton.mpr rfl) _ (List.mem_cons_self ..)
  cases hheld

end ExeCell.Sandbox
