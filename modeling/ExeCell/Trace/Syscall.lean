import ExeCell.Core.Text

/-!
# System calls of x86_64

The numbers the decoder asks for, the register frame, and `syscall_name`.
-/

namespace ExeCell.Trace

namespace Sys

def read : Int := 0
def write : Int := 1
def «open» : Int := 2
def close : Int := 3
def pread64 : Int := 17
def pwrite64 : Int := 18
def readv : Int := 19
def writev : Int := 20
def dup : Int := 32
def dup2 : Int := 33
def socket : Int := 41
def connect : Int := 42
def accept : Int := 43
def bind : Int := 49
def listen : Int := 50
def execve : Int := 59
def fcntl : Int := 72
def rename : Int := 82
def mkdir : Int := 83
def unlink : Int := 87
def chmod : Int := 90
def fchmod : Int := 91
def openat : Int := 257
def mkdirat : Int := 258
def unlinkat : Int := 263
def renameat : Int := 264
def fchmodat : Int := 268
def accept4 : Int := 288
def dup3 : Int := 292
def renameat2 : Int := 316
def closeRange : Int := 436
def openat2 : Int := 437

end Sys

/-- `F_DUPFD` and `F_DUPFD_CLOEXEC`. -/
def fDupfd : Nat := 0
def fDupfdCloexec : Nat := 1030

/-- `AT_FDCWD`. -/
def atFdcwd : Int := -100

/-- The registers of `user_regs_struct` that the tracer reads, as unsigned 64-bit
values. -/
structure Registers where
  origRax : Nat := 0
  rax : Nat := 0
  rdi : Nat := 0
  rsi : Nat := 0
  rdx : Nat := 0
  r10 : Nat := 0
  r8 : Nat := 0
  r9 : Nat := 0
  deriving DecidableEq, Repr

/-- `SyscallFrame`. -/
structure SyscallFrame where
  number : Int
  arguments : List Nat
  result : Int
  deriving DecidableEq, Repr

/-- `X86_64Architecture::decode`. -/
def decodeFrame (registers : Registers) : SyscallFrame where
  number := toInt64 registers.origRax
  arguments := [registers.rdi, registers.rsi, registers.rdx, registers.r10, registers.r8,
    registers.r9]
  result := toInt64 registers.rax

/-- The cases of `syscall_name`. -/
def syscallNames : List (Int × String) :=
  [(0, "read"), (1, "write"), (2, "open"), (3, "close"), (5, "fstat"), (8, "lseek"),
    (9, "mmap"), (10, "mprotect"), (11, "munmap"), (12, "brk"), (16, "ioctl"),
    (19, "readv"), (20, "writev"), (21, "access"), (24, "sched_yield"), (32, "dup"),
    (33, "dup2"), (35, "nanosleep"), (39, "getpid"), (41, "socket"), (42, "connect"),
    (43, "accept"), (288, "accept4"), (44, "sendto"), (45, "recvfrom"), (49, "bind"),
    (50, "listen"), (56, "clone"), (435, "clone3"), (57, "fork"), (58, "vfork"),
    (59, "execve"), (322, "execveat"), (60, "exit"), (231, "exit_group"), (61, "wait4"),
    (62, "kill"), (63, "uname"), (72, "fcntl"), (74, "fsync"), (75, "fdatasync"),
    (79, "getcwd"), (80, "chdir"), (81, "fchdir"), (82, "rename"), (264, "renameat"),
    (316, "renameat2"), (83, "mkdir"), (258, "mkdirat"), (84, "rmdir"), (86, "link"),
    (87, "unlink"), (263, "unlinkat"), (88, "symlink"), (89, "readlink"), (90, "chmod"),
    (91, "fchmod"), (92, "chown"), (93, "fchown"), (95, "umask"), (102, "getuid"),
    (104, "getgid"), (107, "geteuid"), (108, "getegid"), (110, "getppid"),
    (158, "arch_prctl"), (218, "set_tid_address"), (257, "openat"), (437, "openat2"),
    (262, "newfstatat"), (332, "statx"), (273, "set_robust_list"), (302, "prlimit64"),
    (318, "getrandom"), (319, "memfd_create"), (334, "rseq"), (436, "close_range")]

/-- `syscall_name`. -/
def syscallName (syscall : Int) : Text := ((syscallNames.lookup syscall).getD "unknown").toList

end ExeCell.Trace
