import ExeCell.Trace.Descriptors

/-!
# Renames

The three renames pass their paths in different registers. `on_entry` takes `renameat2` for
a `rename`, and of `renameat` it reads the second path from the register of the second
directory; `rename_reported_iff` says when the paths of `FileRenamed` are right all the same.
-/

namespace ExeCell.Trace

open SyscallDecoder

/-- A path argument: the directory it is relative to and the address of its text. -/
structure PathArgument where
  dirfd : Int
  address : Nat
  deriving DecidableEq

/-- The path that the argument stands for. -/
def PathArgument.resolve (argument : PathArgument) (pid : Pid) (memory : Memory) : Text :=
  resolvePath pid argument.dirfd (readProcessString memory argument.address)

namespace Call

def renames (call : Call) : Prop :=
  call.number = Sys.rename ∨ call.number = Sys.renameat ∨ call.number = Sys.renameat2

/-- The old path, as the x86_64 ABI passes it. -/
def oldPath (call : Call) : PathArgument :=
  if call.number = Sys.rename then ⟨atFdcwd, call.entry.registers.rdi⟩
  else ⟨toInt32 call.entry.registers.rdi, call.entry.registers.rsi⟩

/-- The new path, as the x86_64 ABI passes it. -/
def newPath (call : Call) : PathArgument :=
  if call.number = Sys.rename then ⟨atFdcwd, call.entry.registers.rsi⟩
  else ⟨toInt32 call.entry.registers.rdx, call.entry.registers.r10⟩

/-- The argument of `renameat` that `on_entry` takes for the new path: the second directory
as an address, relative to the first one. -/
def directoryAsPath (call : Call) : PathArgument :=
  ⟨toInt32 call.entry.registers.rdi, call.entry.registers.rdx⟩

/-- The arguments of `renameat2` that `on_entry` takes for the paths: the first directory as
an address, and the old path, both relative to the current directory. -/
def shiftedPaths (call : Call) : PathArgument × PathArgument :=
  (⟨atFdcwd, call.entry.registers.rdi⟩, ⟨atFdcwd, call.entry.registers.rsi⟩)

/-- What is read in place of the arguments stands for the same paths. -/
def RenameAgrees (call : Call) (pid : Pid) : Prop :=
  let path := fun argument : PathArgument => argument.resolve pid call.entry.memory
  (call.number = Sys.renameat → path call.directoryAsPath = path call.newPath) ∧
    (call.number = Sys.renameat2 →
      path call.shiftedPaths.1 = path call.oldPath ∧ path call.shiftedPaths.2 = path call.newPath)

instance (call : Call) (pid : Pid) : Decidable (call.RenameAgrees pid) :=
  inferInstanceAs (Decidable (_ ∧ _))

end Call

variable {pid : Pid} {call : Call} {table : FdTable}

theorem pendingPaths_rename (h : call.number = Sys.rename ∨ call.number = Sys.renameat2) :
    (onEntry pid call.entry).1.pendingPath =
        call.shiftedPaths.1.resolve pid call.entry.memory ∧
      (onEntry pid call.entry).1.pendingPathTwo =
        call.shiftedPaths.2.resolve pid call.entry.memory := by
  unfold Call.number at h
  rw [onEntry]
  dsimp only
  generalize (decodeFrame call.entry.registers).number = number at *
  iterate 6 rw [if_neg (by rcases h with rfl | rfl <;> decide)]
  rw [if_pos h]
  constructor <;> dsimp only [Call.shiftedPaths, PathArgument.resolve]

theorem pendingPaths_renameat (h : call.number = Sys.renameat) :
    (onEntry pid call.entry).1.pendingPath = call.oldPath.resolve pid call.entry.memory ∧
      (onEntry pid call.entry).1.pendingPathTwo =
        call.directoryAsPath.resolve pid call.entry.memory := by
  rw [Call.oldPath, h, if_neg (by decide)]
  unfold Call.number at h
  rw [onEntry]
  dsimp only
  rw [h]
  iterate 7 rw [if_neg (by decide)]
  rw [if_pos (Or.inl rfl)]
  constructor <;> dsimp only [Call.directoryAsPath, PathArgument.resolve]

theorem complete_renames (h : call.renames) (hresult : call.result = 0) :
    (call.complete pid table).2 =
      some (.fileRenamed (onEntry pid call.entry).1.pendingPath
        (onEntry pid call.entry).1.pendingPathTwo) := by
  unfold Call.renames Call.number at h
  unfold Call.result at hresult
  rw [← onEntry_currentSyscall pid] at h
  rw [Call.complete, onExit, hresult]
  generalize (onEntry pid call.entry).1.currentSyscall = number at *
  iterate 7 rw [if_neg fun hc => absurd hc.1 (by rcases h with rfl | rfl | rfl <;> decide)]
  rw [if_pos ⟨h, rfl⟩]

/-- A rename that went well is reported with its two paths exactly when what is read in
their place agrees with them. -/
theorem rename_reported_iff (pid : Pid) (call : Call) (table : FdTable) (h : call.renames)
    (hresult : call.result = 0) :
    (call.complete pid table).2 =
        some (.fileRenamed (call.oldPath.resolve pid call.entry.memory)
          (call.newPath.resolve pid call.entry.memory)) ↔
      call.RenameAgrees pid := by
  rw [complete_renames h hresult, Option.some.injEq, Payload.fileRenamed.injEq]
  rcases h with hnumber | hnumber | hnumber
  · obtain ⟨hold, hnew⟩ := @pendingPaths_rename pid call (Or.inl hnumber)
    rw [hold, hnew, Call.oldPath, Call.newPath, if_pos hnumber, if_pos hnumber]
    refine iff_of_true ⟨rfl, rfl⟩ ⟨fun hat => ?_, fun hat => ?_⟩
    · exact absurd (hnumber.symm.trans hat) (by decide)
    · exact absurd (hnumber.symm.trans hat) (by decide)
  · obtain ⟨hold, hnew⟩ := @pendingPaths_renameat pid call hnumber
    rw [hold, hnew, and_iff_right rfl]
    constructor
    · intro heq
      exact ⟨fun _ => heq, fun hat => absurd (hnumber.symm.trans hat) (by decide)⟩
    · exact fun hagrees => hagrees.1 hnumber
  · obtain ⟨hold, hnew⟩ := @pendingPaths_rename pid call (Or.inr hnumber)
    rw [hold, hnew]
    constructor
    · intro heq
      exact ⟨fun hat => absurd (hnumber.symm.trans hat) (by decide), fun _ => heq⟩
    · exact fun hagrees => hagrees.2 hnumber

/-- An address that is not mapped reads as the empty path. -/
theorem resolve_of_unmapped {argument : PathArgument} {memory : Memory}
    (h : peekData memory argument.address = none) : argument.resolve pid memory = [] := by
  have hread : readProcessString memory argument.address = [] := by
    rw [readProcessString, readProcessMemoryString, maxStringSize, wordSize, readWords]
    simp [h, maxStringSize]
  rw [PathArgument.resolve, hread, resolvePath, if_pos (Or.inl rfl)]

/-- Descriptors are no addresses: where they are not mapped, a `renameat` or `renameat2`
with paths that can be read never agrees. -/
theorem not_renameAgrees
    (hnumber : call.number = Sys.renameat ∨ call.number = Sys.renameat2)
    (hdirectories : peekData call.entry.memory call.entry.registers.rdi = none ∧
      peekData call.entry.memory call.entry.registers.rdx = none)
    (hpaths : call.oldPath.resolve pid call.entry.memory ≠ [] ∧
      call.newPath.resolve pid call.entry.memory ≠ []) :
    ¬ call.RenameAgrees pid := by
  rintro ⟨hat, hat2⟩
  rcases hnumber with hnumber | hnumber
  · have hempty : call.directoryAsPath.resolve pid call.entry.memory = [] :=
      resolve_of_unmapped hdirectories.2
    exact hpaths.2 ((hat hnumber).symm.trans hempty)
  · have hempty : call.shiftedPaths.1.resolve pid call.entry.memory = [] :=
      resolve_of_unmapped hdirectories.1
    exact hpaths.1 ((hat2 hnumber).1.symm.trans hempty)

/-- `a` at 4096 and `b` at 4104. -/
def namesMemory : Memory := fun address =>
  if address < 4096 then none
  else some (if address = 4096 then 'a' else if address = 4104 then 'b' else '\x00')

/-- A rename of `a` beneath descriptor 3 to `b` beneath descriptor 4. -/
def renameCall (number : Nat) : Call where
  entry :=
    { registers := { origRax := number, rdi := 3, rsi := 4096, rdx := 4, r10 := 4104 }
      memory := namesMemory }
  exit := { registers := { origRax := number, rax := 0 }, memory := namesMemory }

theorem rename_reported_iff_renameat :
    ((renameCall 264).complete 7 {}).2 =
        some (.fileRenamed ((renameCall 264).oldPath.resolve 7 namesMemory)
          ((renameCall 264).newPath.resolve 7 namesMemory)) ↔
      (renameCall 264).RenameAgrees 7 :=
  rename_reported_iff 7 (renameCall 264) {} (Or.inr (Or.inl (by decide))) (by decide)

/-- `renameat` loses the new path, and `renameat2` reports the empty path and the old one. -/
theorem renameCall_misreported :
    (renameCall 264).renames ∧ (renameCall 264).result = 0 ∧
      (renameCall 264).oldPath.resolve 7 namesMemory = "/proc/7/fd/3/a".toList ∧
      (renameCall 264).newPath.resolve 7 namesMemory = "/proc/7/fd/4/b".toList ∧
      ((renameCall 264).complete 7 {}).2 =
        some (.fileRenamed "/proc/7/fd/3/a".toList []) ∧
      (renameCall 316).renames ∧ (renameCall 316).result = 0 ∧
      ((renameCall 316).complete 7 {}).2 =
        some (.fileRenamed [] "/proc/7/cwd/a".toList) := by
  refine ⟨Or.inr (Or.inl (by decide)), by decide, by decide +kernel, by decide +kernel,
    by decide +kernel, Or.inr (Or.inr (by decide)), by decide, by decide +kernel⟩

end ExeCell.Trace
