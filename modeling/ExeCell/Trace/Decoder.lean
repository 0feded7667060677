import ExeCell.Core.Event
import ExeCell.Lib.LexicalPath
import ExeCell.Trace.Endpoint
import ExeCell.Trace.FdTable
import ExeCell.Trace.Syscall

/-!
# The system call decoder

`SyscallDecoder::on_entry` reads the arguments of a call while its memory is still as
the task passed it; `on_exit` joins them with the result of the call. Between the two
the decoder keeps the arguments in its pending fields.
-/

namespace ExeCell.Trace

/-- What the tracer can read of a stopped task. -/
structure Tracee where
  registers : Registers
  memory : Memory

/-- The members of `SyscallDecoder`; the descriptor table belongs to the task. -/
structure SyscallDecoder where
  currentSyscall : Int := -1
  pendingPath : Text := []
  pendingPathTwo : Text := []
  pendingEndpoint : Text := []
  pendingSocketDomain : Int := 0
  pendingSocketType : Int := 0
  pendingSocketProtocol : Int := 0
  pendingMode : Nat := 0
  pendingFd : Int := -1
  pendingDirfd : Int := -100
  pendingTargetFd : Int := -1
  pendingCloseRangeEnd : Nat := 0
  deriving DecidableEq, Repr

/-- `resolve_path`. -/
def resolvePath (pid : Pid) (dirfd : Int) (path : Text) : Text :=
  if path = [] ∨ path.head? = some '/' then path
  else
    let base : Text :=
      if dirfd = atFdcwd then "/proc/".toList ++ Text.ofInt pid ++ "/cwd".toList
      else "/proc/".toList ++ Text.ofInt pid ++ "/fd/".toList ++ Text.ofInt dirfd
    LexicalPath.lexicallyNormal (LexicalPath.append base path)

namespace SyscallDecoder

/-- `SyscallDecoder::on_entry`. -/
def onEntry (pid : Pid) (tracee : Tracee) : SyscallDecoder × Option Payload :=
  let regs := tracee.registers
  let syscall := (decodeFrame regs).number
  let string := readProcessString tracee.memory
  let d : SyscallDecoder := { currentSyscall := syscall, pendingDirfd := atFdcwd }
  if syscall = Sys.socket then
    ({ d with
        pendingSocketDomain := toInt32 regs.rdi
        pendingSocketType := toInt32 regs.rsi
        pendingSocketProtocol := toInt32 regs.rdx }, none)
  else if syscall = Sys.connect ∨ syscall = Sys.bind then
    ({ d with
        pendingFd := toInt32 regs.rdi
        pendingEndpoint := readEndpoint tracee.memory regs.rsi regs.rdx }, none)
  else if syscall = Sys.listen then
    ({ d with pendingFd := toInt32 regs.rdi, pendingTargetFd := toInt32 regs.rsi }, none)
  else if syscall = Sys.accept ∨ syscall = Sys.accept4 then
    ({ d with
        pendingFd := toInt32 regs.rdi
        -- the length argument is a pointer here, but it is passed on as the length
        pendingEndpoint :=
          if regs.rsi ≠ 0 ∧ regs.rdx ≠ 0 then readEndpoint tracee.memory regs.rsi regs.rdx
          else [] }, none)
  else if syscall = Sys.dup ∨ syscall = Sys.dup2 ∨ syscall = Sys.dup3 then
    ({ d with pendingFd := toInt32 regs.rdi, pendingTargetFd := toInt32 regs.rsi }, none)
  else if syscall = Sys.openat ∨ syscall = Sys.open ∨ syscall = Sys.openat2 then
    ({ d with
        pendingPath :=
          resolvePath pid (if syscall = Sys.open then atFdcwd else toInt32 regs.rdi)
            (string (if syscall = Sys.open then regs.rdi else regs.rsi)) }, none)
  else if syscall = Sys.rename ∨ syscall = Sys.renameat2 then
    ({ d with
        pendingPath := resolvePath pid atFdcwd (string regs.rdi)
        pendingPathTwo := resolvePath pid atFdcwd (string regs.rsi) }, none)
  else if syscall = Sys.renameat ∨ syscall = Sys.renameat2 then
    ({ d with
        pendingPath := resolvePath pid (toInt32 regs.rdi) (string regs.rsi)
        pendingPathTwo := resolvePath pid (toInt32 regs.rdi) (string regs.rdx) }, none)
  else if syscall = Sys.unlink then
    ({ d with pendingPath := resolvePath pid atFdcwd (string regs.rdi) }, none)
  else if syscall = Sys.unlinkat then
    ({ d with pendingPath := resolvePath pid (toInt32 regs.rdi) (string regs.rsi) }, none)
  else if syscall = Sys.mkdir then
    ({ d with
        pendingPath := resolvePath pid atFdcwd (string regs.rdi)
        pendingFd := toInt32 regs.rsi }, none)
  else if syscall = Sys.mkdirat then
    ({ d with
        pendingPath := resolvePath pid (toInt32 regs.rdi) (string regs.rsi)
        pendingFd := toInt32 regs.rdx }, none)
  else if syscall = Sys.chmod then
    ({ d with pendingPath := string regs.rdi, pendingMode := toUInt32 regs.rsi }, none)
  else if syscall = Sys.fchmod then
    ({ d with pendingFd := toInt32 regs.rdi, pendingMode := toUInt32 regs.rsi }, none)
  else if syscall = Sys.fcntl ∧ (regs.rsi = fDupfd ∨ regs.rsi = fDupfdCloexec) then
    ({ d with pendingFd := toInt32 regs.rdi }, none)
  else if syscall = Sys.fchmodat then
    ({ d with
        pendingPath := resolvePath pid (toInt32 regs.rdi) (string regs.rsi)
        pendingMode := toUInt32 regs.rdx }, none)
  else if syscall = Sys.closeRange then
    ({ d with
        pendingFd := toInt32 regs.rdi
        pendingCloseRangeEnd := toUInt32 regs.rsi }, none)
  else if syscall = Sys.execve then
    let path := string regs.rdi
    ({ d with pendingPath := path }, some (.processExec pid path))
  else if syscall = Sys.read ∨ syscall = Sys.write ∨ syscall = Sys.close ∨
      syscall = Sys.pread64 ∨ syscall = Sys.pwrite64 ∨ syscall = Sys.readv ∨
      syscall = Sys.writev then
    ({ d with pendingFd := toInt32 regs.rdi }, none)
  else (d, none)

/-- The calls whose failure is reported. -/
def reportsFailure (syscall : Int) : Bool :=
  syscall = Sys.openat ∨ syscall = Sys.read ∨ syscall = Sys.write ∨ syscall = Sys.close ∨
    syscall = Sys.connect ∨ syscall = Sys.bind

/-- `SyscallDecoder::on_exit`; the descriptor table is the one of the task. -/
def onExit (d : SyscallDecoder) (table : FdTable) (pid : Pid) (tracee : Tracee) :
    FdTable × Option Payload :=
  let result := (decodeFrame tracee.registers).result
  let syscall := d.currentSyscall
  if syscall = Sys.socket ∧ result ≥ 0 then
    (table, some (.socketCreated (toInt32 result) d.pendingSocketDomain d.pendingSocketType
      d.pendingSocketProtocol))
  else if syscall = Sys.connect ∧ result = 0 then
    (table, some (.networkConnected d.pendingFd d.pendingEndpoint))
  else if syscall = Sys.bind ∧ result = 0 then
    (table, some (.networkBound d.pendingFd d.pendingEndpoint))
  else if syscall = Sys.listen ∧ result = 0 then
    (table, some (.networkListening d.pendingFd d.pendingTargetFd))
  else if (syscall = Sys.accept ∨ syscall = Sys.accept4) ∧ result ≥ 0 then
    (table, some (.networkAccepted (toInt32 result) d.pendingEndpoint))
  else if (syscall = Sys.openat ∨ syscall = Sys.open ∨ syscall = Sys.openat2) ∧ result ≥ 0 then
    (table.track (toInt32 result) d.pendingPath,
      some (.fileOpened (toInt32 result) d.pendingPath))
  else if (syscall = Sys.unlink ∨ syscall = Sys.unlinkat) ∧ result = 0 then
    (table, some (.fileDeleted d.pendingPath))
  else if (syscall = Sys.rename ∨ syscall = Sys.renameat ∨ syscall = Sys.renameat2) ∧
      result = 0 then
    (table, some (.fileRenamed d.pendingPath d.pendingPathTwo))
  else if (syscall = Sys.mkdir ∨ syscall = Sys.mkdirat) ∧ result = 0 then
    (table, some (.directoryCreated d.pendingPath))
  else if syscall = Sys.chmod ∧ result = 0 then
    (table, some (.fileModeChanged d.pendingPath d.pendingMode))
  else if syscall = Sys.fchmod ∧ result = 0 ∧ (table.lookup d.pendingFd).isSome then
    (table, (table.lookup d.pendingFd).map fun path => .fileModeChanged path d.pendingMode)
  else if syscall = Sys.fchmodat ∧ result = 0 then
    (table, some (.fileModeChanged d.pendingPath d.pendingMode))
  else if syscall = Sys.fcntl ∧ result ≥ 0 ∧ d.pendingFd ≥ 0 then
    (table.duplicate d.pendingFd (toInt32 result), none)
  else if syscall = Sys.closeRange ∧ result = 0 then
    (table.closeRange (toUInt32 d.pendingFd) d.pendingCloseRangeEnd, none)
  else if result < 0 ∧ reportsFailure syscall then
    (table, some (.syscallFailed pid (syscallName syscall) (toInt32 (-result))))
  else if (syscall = Sys.dup ∨ syscall = Sys.dup2 ∨ syscall = Sys.dup3) ∧ result ≥ 0 then
    (table.duplicate d.pendingFd (toInt32 result), none)
  else if (syscall = Sys.read ∨ syscall = Sys.pread64 ∨ syscall = Sys.readv) ∧ result ≥ 0 then
    (table, (table.lookup d.pendingFd).map fun path =>
      .fileRead d.pendingFd path result.toNat)
  else if (syscall = Sys.write ∨ syscall = Sys.pwrite64 ∨ syscall = Sys.writev) ∧
      result ≥ 0 then
    (table, (table.lookup d.pendingFd).map fun path =>
      .fileWritten d.pendingFd path result.toNat)
  else if syscall = Sys.close ∧ result = 0 then
    match table.lookup d.pendingFd with
    | none => (table, none)
    | some path => (table.close d.pendingFd, some (.fileClosed d.pendingFd path))
  else (table, none)

end SyscallDecoder

end ExeCell.Trace
