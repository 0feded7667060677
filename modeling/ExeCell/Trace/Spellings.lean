import Mathlib.Tactic.Tauto
import ExeCell.Trace.RelativePaths
import ExeCell.Trace.Descriptors

/-!
# Two spellings of one call

Opening, unlinking, making a directory and changing a mode each have an old system call,
which takes a path, and newer ones, which also take the directory it is relative to. With
`AT_FDCWD` they mean the same. `respelled_alike_iff` says when they are observed alike: a
failure is reported of `openat` alone, and only `fchmodat` resolves its path.
-/

namespace ExeCell

/-- The payload without the name of the system call. -/
def Payload.anonymous : Payload → Payload
  | .syscallFailed pid _ error => .syscallFailed pid [] error
  | payload => payload

namespace Trace

open SyscallDecoder

/-- The operations on a path that have several spellings. -/
inductive PathOperation where
  | openFile
  | unlink
  | mkdir
  | chmod
  deriving DecidableEq, Repr

namespace PathOperation

/-- The call that takes the path alone. -/
def plain : PathOperation → Int
  | .openFile => Sys.open
  | .unlink => Sys.unlink
  | .mkdir => Sys.mkdir
  | .chmod => Sys.chmod

/-- The calls that take a directory and the path. -/
def relative : PathOperation → List Int
  | .openFile => [Sys.openat, Sys.openat2]
  | .unlink => [Sys.unlinkat]
  | .mkdir => [Sys.mkdirat]
  | .chmod => [Sys.fchmodat]

/-- The operations whose last argument is a mode. -/
def takesMode : PathOperation → Bool
  | .mkdir => true
  | .chmod => true
  | _ => false

end PathOperation

/-- The call does the operation on the path at `pointer`, relative to the current
directory, with the mode. -/
def Call.Spells (call : Call) (operation : PathOperation) (pointer mode : Nat) : Prop :=
  let regs := call.entry.registers
  (call.number = operation.plain ∧ regs.rdi = pointer ∧
      (operation.takesMode → regs.rsi = mode)) ∨
    (call.number ∈ operation.relative ∧ toInt32 regs.rdi = atFdcwd ∧ regs.rsi = pointer ∧
      (operation.takesMode → regs.rdx = mode))

/-- Two calls that do the same operation in the same memory and have the same result. -/
structure Respelled (operation : PathOperation) (pointer mode : Nat) (call call' : Call) :
    Prop where
  spells : call.Spells operation pointer mode
  spells' : call'.Spells operation pointer mode
  memory : call.entry.memory = call'.entry.memory
  result : call.result = call'.result

/-- Where the two spellings are observed alike. -/
def AlikeWhen (operation : PathOperation) (pointer : Nat) (call call' : Call) : Prop :=
  let path := readProcessString call.entry.memory pointer
  match operation with
  | .openFile => call.result < 0 → (call.number = Sys.openat ↔ call'.number = Sys.openat)
  | .chmod => call.result = 0 → call.number ≠ call'.number → path = [] ∨ path.head? = some '/'
  | _ => True

instance (operation : PathOperation) (pointer : Nat) (call call' : Call) :
    Decidable (AlikeWhen operation pointer call call') :=
  match operation with
  | .openFile => inferInstanceAs (Decidable (_ < _ → (_ = _ ↔ _ = _)))
  | .chmod => inferInstanceAs (Decidable (_ = _ → _ ≠ _ → _ = _ ∨ _ = _))
  | .unlink => inferInstanceAs (Decidable True)
  | .mkdir => inferInstanceAs (Decidable True)

/-! ## What is pending -/

section Entry

variable {pid : Pid} {call : Call} {operation : PathOperation} {pointer mode : Nat}

/-- The numbers of the operations. -/
theorem number_of_spells (h : call.Spells operation pointer mode) :
    call.number = operation.plain ∨ call.number ∈ operation.relative :=
  h.imp And.left And.left

theorem spells_opens (h : call.Spells .openFile pointer mode) : call.opens := by
  rcases number_of_spells h with h | h
  · exact Or.inr (Or.inl h)
  · rcases List.mem_pair.mp h with h | h
    · exact Or.inl h
    · exact Or.inr (Or.inr h)

theorem path_openFile (h : call.Spells .openFile pointer mode) :
    call.path pid = resolvePath pid atFdcwd (readProcessString call.entry.memory pointer) := by
  rw [Call.path]
  rcases h with ⟨hnumber, rfl, _⟩ | ⟨hnumber, hdirfd, rfl, _⟩
  · rw [PathOperation.plain] at hnumber
    rw [if_pos hnumber]
  · have hne : call.number ≠ Sys.open := by
      rcases List.mem_pair.mp hnumber with h | h <;> rw [h] <;> decide
    rw [if_neg hne, hdirfd]

theorem pendingPath_unlink (h : call.Spells .unlink pointer mode) :
    (onEntry pid call.entry).1.pendingPath =
      resolvePath pid atFdcwd (readProcessString call.entry.memory pointer) := by
  rcases h with ⟨hnumber, rfl, _⟩ | ⟨hnumber, hdirfd, rfl, _⟩
  · rw [PathOperation.plain] at hnumber
    unfold Call.number at hnumber
    rw [onEntry]
    dsimp only
    rw [hnumber]
    iterate 8 rw [if_neg (by decide)]
    rw [if_pos rfl]
  · rw [PathOperation.relative, List.mem_singleton] at hnumber
    unfold Call.number at hnumber
    rw [onEntry]
    dsimp only
    rw [hnumber]
    iterate 9 rw [if_neg (by decide)]
    rw [if_pos rfl, ← hdirfd]

theorem pendingPath_mkdir (h : call.Spells .mkdir pointer mode) :
    (onEntry pid call.entry).1.pendingPath =
      resolvePath pid atFdcwd (readProcessString call.entry.memory pointer) := by
  rcases h with ⟨hnumber, rfl, _⟩ | ⟨hnumber, hdirfd, rfl, _⟩
  · rw [PathOperation.plain] at hnumber
    unfold Call.number at hnumber
    rw [onEntry]
    dsimp only
    rw [hnumber]
    iterate 10 rw [if_neg (by decide)]
    rw [if_pos rfl]
  · rw [PathOperation.relative, List.mem_singleton] at hnumber
    unfold Call.number at hnumber
    rw [onEntry]
    dsimp only
    rw [hnumber]
    iterate 11 rw [if_neg (by decide)]
    rw [if_pos rfl, ← hdirfd]

/-- `chmod` keeps its path as it is, `fchmodat` resolves it. -/
theorem pending_chmod (h : call.Spells .chmod pointer mode) :
    (onEntry pid call.entry).1.pendingMode = toUInt32 mode ∧
      (onEntry pid call.entry).1.pendingPath =
        if call.number = Sys.chmod then readProcessString call.entry.memory pointer
        else resolvePath pid atFdcwd (readProcessString call.entry.memory pointer) := by
  rcases h with ⟨hnumber, rfl, hmode⟩ | ⟨hnumber, hdirfd, rfl, hmode⟩
  · rw [PathOperation.plain] at hnumber
    rw [if_pos hnumber, ← hmode rfl]
    unfold Call.number at hnumber
    rw [onEntry]
    dsimp only
    rw [hnumber]
    iterate 12 rw [if_neg (by decide)]
    rw [if_pos (by rfl)]
    constructor <;> dsimp only
  · rw [PathOperation.relative, List.mem_singleton] at hnumber
    rw [if_neg (by rw [hnumber]; decide), ← hmode rfl]
    unfold Call.number at hnumber
    rw [onEntry]
    dsimp only
    rw [hnumber]
    iterate 14 rw [if_neg (by decide)]
    rw [if_neg fun hdup => absurd hdup.1 (by decide), if_pos rfl, ← hdirfd]
    constructor <;> dsimp only

end Entry

/-! ## What is reported -/

section Exit

variable {d : SyscallDecoder} {table : FdTable} {pid : Pid} {tracee : Tracee}

theorem onExit_openFile
    (h : d.currentSyscall = Sys.openat ∨ d.currentSyscall = Sys.open ∨
      d.currentSyscall = Sys.openat2) :
    (d.onExit table pid tracee).2 =
      let result := (decodeFrame tracee.registers).result
      if result ≥ 0 then some (.fileOpened (toInt32 result) d.pendingPath)
      else if d.currentSyscall = Sys.openat then
        some (.syscallFailed pid "openat".toList (toInt32 (-result)))
      else none := by
  rw [onExit]
  dsimp only
  generalize d.currentSyscall = number at *
  generalize (decodeFrame tracee.registers).result = result
  iterate 5 rw [if_neg fun hc => absurd hc.1 (by rcases h with rfl | rfl | rfl <;> decide)]
  by_cases hresult : result ≥ 0
  · rw [if_pos ⟨h, hresult⟩, if_pos hresult]
  · rw [if_neg fun hc => hresult hc.2, if_neg hresult]
    iterate 8 rw [if_neg fun hc => absurd hc.1 (by rcases h with rfl | rfl | rfl <;> decide)]
    by_cases hnumber : number = Sys.openat
    · rw [if_pos ⟨not_le.mp hresult, by rw [hnumber]; decide⟩, if_pos hnumber, hnumber]
      rfl
    · have hquiet : reportsFailure number = false := by
        rcases h with h | rfl | rfl
        · exact absurd h hnumber
        · decide
        · decide
      rw [if_neg fun hc => absurd (hquiet.symm.trans hc.2) Bool.false_ne_true, if_neg hnumber]
      iterate 4 rw [if_neg fun hc => absurd hc.1 (by rcases h with rfl | rfl | rfl <;> decide)]

/-- The calls whose success alone is reported. -/
theorem onExit_unlink (h : d.currentSyscall = Sys.unlink ∨ d.currentSyscall = Sys.unlinkat) :
    (d.onExit table pid tracee).2 =
      if (decodeFrame tracee.registers).result = 0 then some (.fileDeleted d.pendingPath)
      else none := by
  rw [onExit]
  generalize d.currentSyscall = number at *
  generalize (decodeFrame tracee.registers).result = result
  iterate 6 rw [if_neg fun hc => absurd hc.1 (by rcases h with rfl | rfl <;> decide)]
  by_cases hresult : result = 0
  · rw [if_pos ⟨h, hresult⟩, if_pos hresult]
  · rw [if_neg fun hc => hresult hc.2, if_neg hresult]
    iterate 7 rw [if_neg fun hc => absurd hc.1 (by rcases h with rfl | rfl <;> decide)]
    rw [if_neg fun hc => absurd hc.2 (by rcases h with rfl | rfl <;> decide)]
    iterate 4 rw [if_neg fun hc => absurd hc.1 (by rcases h with rfl | rfl <;> decide)]

theorem onExit_mkdir (h : d.currentSyscall = Sys.mkdir ∨ d.currentSyscall = Sys.mkdirat) :
    (d.onExit table pid tracee).2 =
      if (decodeFrame tracee.registers).result = 0 then some (.directoryCreated d.pendingPath)
      else none := by
  rw [onExit]
  generalize d.currentSyscall = number at *
  generalize (decodeFrame tracee.registers).result = result
  iterate 8 rw [if_neg fun hc => absurd hc.1 (by rcases h with rfl | rfl <;> decide)]
  by_cases hresult : result = 0
  · rw [if_pos ⟨h, hresult⟩, if_pos hresult]
  · rw [if_neg fun hc => hresult hc.2, if_neg hresult]
    iterate 5 rw [if_neg fun hc => absurd hc.1 (by rcases h with rfl | rfl <;> decide)]
    rw [if_neg fun hc => absurd hc.2 (by rcases h with rfl | rfl <;> decide)]
    iterate 4 rw [if_neg fun hc => absurd hc.1 (by rcases h with rfl | rfl <;> decide)]

theorem onExit_chmod (h : d.currentSyscall = Sys.chmod ∨ d.currentSyscall = Sys.fchmodat) :
    (d.onExit table pid tracee).2 =
      if (decodeFrame tracee.registers).result = 0 then
        some (.fileModeChanged d.pendingPath d.pendingMode)
      else none := by
  rw [onExit]
  generalize d.currentSyscall = number at *
  generalize (decodeFrame tracee.registers).result = result
  iterate 9 rw [if_neg fun hc => absurd hc.1 (by rcases h with rfl | rfl <;> decide)]
  by_cases hresult : result = 0
  · rw [if_pos hresult]
    rcases h with rfl | rfl
    · rw [if_pos ⟨rfl, hresult⟩]
    · iterate 2 rw [if_neg fun hc => absurd hc.1 (by decide)]
      rw [if_pos ⟨rfl, hresult⟩]
  · rw [if_neg fun hc => hresult hc.2, if_neg fun hc => hresult hc.2.1,
      if_neg fun hc => hresult hc.2, if_neg hresult]
    iterate 2 rw [if_neg fun hc => absurd hc.1 (by rcases h with rfl | rfl <;> decide)]
    rw [if_neg fun hc => absurd hc.2 (by rcases h with rfl | rfl <;> decide)]
    iterate 4 rw [if_neg fun hc => absurd hc.1 (by rcases h with rfl | rfl <;> decide)]

end Exit

/-! ## Both spellings -/

section Complete

variable {pid : Pid} {call : Call} {table : FdTable} {pointer mode : Nat}

theorem complete_openFile (h : call.Spells .openFile pointer mode) :
    (call.complete pid table).2 =
      if call.result ≥ 0 then
        some (.fileOpened (toInt32 call.result)
          (resolvePath pid atFdcwd (readProcessString call.entry.memory pointer)))
      else if call.number = Sys.openat then
        some (.syscallFailed pid "openat".toList (toInt32 (-call.result)))
      else none := by
  have hopens := spells_opens h
  have hpath := @pendingPath_opens pid call hopens
  rw [path_openFile h] at hpath
  have hnumber := onEntry_currentSyscall pid call.entry
  have hexit := @onExit_openFile (onEntry pid call.entry).1 table pid call.exit
    (by rw [hnumber]; exact hopens)
  rw [hpath, hnumber] at hexit
  exact hexit

theorem complete_unlink (h : call.Spells .unlink pointer mode) :
    (call.complete pid table).2 =
      if call.result = 0 then
        some (.fileDeleted (resolvePath pid atFdcwd (readProcessString call.entry.memory pointer)))
      else none := by
  have hnumber := onEntry_currentSyscall pid call.entry
  have hexit := @onExit_unlink (onEntry pid call.entry).1 table pid call.exit
    (by rw [hnumber]; exact (number_of_spells h).imp_right List.mem_singleton.mp)
  rw [pendingPath_unlink h] at hexit
  exact hexit

theorem complete_mkdir (h : call.Spells .mkdir pointer mode) :
    (call.complete pid table).2 =
      if call.result = 0 then
        some (.directoryCreated
          (resolvePath pid atFdcwd (readProcessString call.entry.memory pointer)))
      else none := by
  have hnumber := onEntry_currentSyscall pid call.entry
  have hexit := @onExit_mkdir (onEntry pid call.entry).1 table pid call.exit
    (by rw [hnumber]; exact (number_of_spells h).imp_right List.mem_singleton.mp)
  rw [pendingPath_mkdir h] at hexit
  exact hexit

theorem complete_chmod (h : call.Spells .chmod pointer mode) :
    (call.complete pid table).2 =
      if call.result = 0 then
        some (.fileModeChanged
          (if call.number = Sys.chmod then readProcessString call.entry.memory pointer
          else resolvePath pid atFdcwd (readProcessString call.entry.memory pointer))
          (toUInt32 mode))
      else none := by
  have hnumber := onEntry_currentSyscall pid call.entry
  have hexit := @onExit_chmod (onEntry pid call.entry).1 table pid call.exit
    (by rw [hnumber]; exact (number_of_spells h).imp_right List.mem_singleton.mp)
  obtain ⟨hmode, hpath⟩ := @pending_chmod pid call pointer mode h
  rw [hmode, hpath] at hexit
  exact hexit

/-- A relative path never resolves to itself. -/
theorem resolvePath_eq_self_iff {dirfd : Int} {path : Text} :
    resolvePath pid dirfd path = path ↔ path = [] ∨ path.head? = some '/' := by
  constructor
  · intro heq
    by_contra h
    rw [not_or] at h
    have hrelative : LexicalPath.isAbsolute path = false := decide_eq_false h.2
    have habsolute := isAbsolute_resolvePath pid dirfd h.1 hrelative
    rw [heq, hrelative] at habsolute
    cases habsolute
  · intro h
    rw [resolvePath, if_pos h]

end Complete

/-- The events of two spellings are the same up to the name of the call exactly when they are
not told apart by who reports a failure and who resolves a path. -/
theorem respelled_alike_iff (operation : PathOperation) (pointer mode : Nat) (call call' : Call)
    (pid : Pid) (table : FdTable) (h : Respelled operation pointer mode call call') :
    (call.complete pid table).2.map Payload.anonymous =
        (call'.complete pid table).2.map Payload.anonymous ↔
      AlikeWhen operation pointer call call' := by
  obtain ⟨hspells, hspells', hmemory, hresult⟩ := h
  cases operation with
  | openFile =>
    rw [complete_openFile hspells, complete_openFile hspells', ← hmemory, ← hresult, AlikeWhen]
    by_cases hsuccess : call.result ≥ 0
    · rw [if_pos hsuccess, if_pos hsuccess]
      exact iff_of_true rfl fun hfails => absurd hsuccess (not_le.mpr hfails)
    · rw [if_neg hsuccess, if_neg hsuccess, imp_iff_right (not_le.mp hsuccess)]
      by_cases hopenat : call.number = Sys.openat <;>
        by_cases hopenat' : call'.number = Sys.openat <;> simp [hopenat, hopenat']
  | unlink =>
    rw [complete_unlink hspells, complete_unlink hspells', ← hmemory, ← hresult]
    exact iff_of_true rfl trivial
  | mkdir =>
    rw [complete_mkdir hspells, complete_mkdir hspells', ← hmemory, ← hresult]
    exact iff_of_true rfl trivial
  | chmod =>
    rw [complete_chmod hspells, complete_chmod hspells', ← hmemory, ← hresult, AlikeWhen]
    by_cases hsuccess : call.result = 0
    · rw [if_pos hsuccess, if_pos hsuccess, imp_iff_right hsuccess, Option.map_some,
        Option.map_some, Option.some.injEq]
      simp only [Payload.anonymous, Payload.fileModeChanged.injEq, and_true]
      rw [← @resolvePath_eq_self_iff pid atFdcwd]
      have hnumber := (number_of_spells hspells).imp_right List.mem_singleton.mp
      have hnumber' := (number_of_spells hspells').imp_right List.mem_singleton.mp
      rw [PathOperation.plain] at hnumber hnumber'
      have hdistinct : Sys.fchmodat ≠ Sys.chmod := by decide
      rcases hnumber with hnumber | hnumber <;> rcases hnumber' with hnumber' | hnumber' <;>
        rw [hnumber, hnumber']
      · exact iff_of_true rfl fun hne => absurd rfl hne
      · rw [if_pos rfl, if_neg hdistinct, imp_iff_right hdistinct.symm, eq_comm]
      · rw [if_neg hdistinct, if_pos rfl, imp_iff_right hdistinct]
      · exact iff_of_true rfl fun hne => absurd rfl hne
    · rw [if_neg hsuccess, if_neg hsuccess]
      exact iff_of_true rfl fun hzero => absurd hzero hsuccess

/-- The call with the given number and first three arguments, and its result. -/
def pathCall (number rdi rsi rdx result : Nat) : Call where
  entry :=
    { registers := { origRax := number, rdi := rdi, rsi := rsi, rdx := rdx }
      memory := fun address => some (if address = 4096 then 'f' else '\x00') }
  exit :=
    { registers := { origRax := number, rax := result }
      memory := fun address => some (if address = 4096 then 'f' else '\x00') }

/-- `AT_FDCWD` in a register. -/
def currentDirectory : Nat := 2 ^ 64 - 100

theorem respelled_alike_iff_unlink :
    ((pathCall 87 4096 0 0 0).complete 7 {}).2.map Payload.anonymous =
        ((pathCall 263 currentDirectory 4096 0 0).complete 7 {}).2.map Payload.anonymous ↔
      AlikeWhen .unlink 4096 (pathCall 87 4096 0 0 0)
        (pathCall 263 currentDirectory 4096 0 0) := by
  refine respelled_alike_iff .unlink 4096 0 (pathCall 87 4096 0 0 0)
    (pathCall 263 currentDirectory 4096 0 0) 7 {} ⟨?_, ?_, rfl, rfl⟩
  · exact Or.inl ⟨by decide, rfl, fun hmode => nomatch hmode⟩
  · exact Or.inr ⟨by decide, by decide, rfl, fun hmode => nomatch hmode⟩

/-- A failed `open` goes unreported, and `chmod` keeps the relative path. -/
theorem spellings_told_apart :
    Respelled .openFile 4096 0 (pathCall 2 4096 0 0 (2 ^ 64 - 2))
        (pathCall 257 currentDirectory 4096 0 (2 ^ 64 - 2)) ∧
      ((pathCall 2 4096 0 0 (2 ^ 64 - 2)).complete 7 {}).2 = none ∧
      ((pathCall 257 currentDirectory 4096 0 (2 ^ 64 - 2)).complete 7 {}).2 =
        some (.syscallFailed 7 "openat".toList 2) ∧
      Respelled .chmod 4096 0o600 (pathCall 90 4096 0o600 0 0)
        (pathCall 268 currentDirectory 4096 0o600 0) ∧
      ((pathCall 90 4096 0o600 0 0).complete 7 {}).2 =
        some (.fileModeChanged "f".toList 0o600) ∧
      ((pathCall 268 currentDirectory 4096 0o600 0).complete 7 {}).2 =
        some (.fileModeChanged "/proc/7/cwd/f".toList 0o600) := by
  refine ⟨⟨?_, ?_, rfl, rfl⟩, by decide +kernel, by decide +kernel, ⟨?_, ?_, rfl, rfl⟩,
    by decide +kernel, by decide +kernel⟩
  · exact Or.inl ⟨by decide, rfl, fun hmode => nomatch hmode⟩
  · exact Or.inr ⟨by decide, by decide, rfl, fun hmode => nomatch hmode⟩
  · exact Or.inl ⟨by decide, rfl, fun _ => rfl⟩
  · exact Or.inr ⟨by decide, by decide, rfl, fun _ => rfl⟩

end Trace

end ExeCell
