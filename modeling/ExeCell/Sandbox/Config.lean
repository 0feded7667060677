import ExeCell.Core.Text
import ExeCell.Lib.LexicalPath

/-!
# Sandbox configuration

`sandbox::Config` with its defaults, and `validate`, which every run of the sandbox
starts with.
-/

namespace ExeCell.Sandbox

inductive Backend where
  | namespaces
  | vm
  deriving DecidableEq, Repr

/-- `Config::CgroupBudget`; a limit of zero is not set. -/
structure CgroupBudget where
  path : Text := []
  memoryMax : Nat := 0
  pidsMax : Nat := 0
  cpuQuotaUs : Nat := 0
  cpuPeriodUs : Nat := 100000
  deriving DecidableEq, Repr

structure Config where
  backend : Backend := .namespaces
  userNamespace : Bool := true
  mountNamespace : Bool := true
  networkNamespace : Bool := false
  dropCapabilities : Bool := true
  noNewPrivileges : Bool := true
  readOnlyRoot : Bool := true
  cleanEnvironment : Bool := false
  dropToUnprivilegedUser : Bool := false
  mountProc : Bool := true
  mountRun : Bool := true
  traceEvents : Bool := false
  cpuSeconds : Nat := 0
  addressSpaceBytes : Nat := 0
  maxProcesses : Nat := 0
  maxFileBytes : Nat := 0
  rootfs : Text := []
  workingDirectory : Text := []
  seccompAllowlist : List Int := []
  cgroup : CgroupBudget := {}
  deriving DecidableEq, Repr

/-- What validation asks of the host: the backends `detect_backends` finds on the path,
and which paths are symbolic links. -/
structure Host where
  firecracker : Bool := false
  qemu : Bool := false
  isSymlink : Text → Bool := fun _ => false

/-- `validate_backend`: only the namespace backend is implemented. -/
def validateBackend (host : Host) (backend : Backend) : Except Text Unit :=
  if backend = .namespaces then .ok ()
  else if !host.firecracker && !host.qemu then
    .error "VM backend unavailable: Firecracker or QEMU required".toList
  else .error "VM backend detected but implementation unavailable".toList

/-- `validate_cgroup`. -/
def validateCgroup (host : Host) (budget : CgroupBudget) : Except Text Unit :=
  if budget.path = [] then .ok ()
  else if !LexicalPath.isAbsolute budget.path || host.isSymlink budget.path then
    .error "cgroup path must be absolute and non-symlink".toList
  else if budget.cpuPeriodUs = 0 ∨ budget.cpuPeriodUs > 1000000 then
    .error "invalid cgroup CPU period".toList
  else if budget.cpuQuotaUs ≠ 0 ∧ budget.cpuQuotaUs > budget.cpuPeriodUs * 1024 then
    .error "cgroup CPU quota exceeds safety ceiling".toList
  else .ok ()

/-- `validate`. -/
def validate (host : Host) (config : Config) : Except Text Unit := do
  if config.mountNamespace && !config.userNamespace then
    throw "mount namespace requires user namespace for unprivileged setup".toList
  validateBackend host config.backend
  if !config.dropCapabilities && (config.mountNamespace || config.networkNamespace) then
    throw "sandbox must drop capabilities before namespace setup".toList
  if !config.seccompAllowlist.isEmpty && !config.noNewPrivileges then
    throw "seccomp requires no_new_privileges".toList
  if config.cpuSeconds > 86400 then
    throw "cpu limit exceeds 24 hours".toList
  if config.addressSpaceBytes ≠ 0 ∧ config.addressSpaceBytes < 4096 then
    throw "address-space limit is below page size".toList
  if config.maxProcesses > 0 ∧ config.maxProcesses > 100000 then
    throw "process limit exceeds safety ceiling".toList
  validateCgroup host config.cgroup

/-- `default_package_syscalls`: the numbers of the calls, in the source's order. -/
def defaultPackageSyscalls : List Int :=
  [0, 1, 3, 2, 257, 262, 5, 332, 8, 17, 18, 19, 20, 217, 32, 33, 292, 72, 16, 22, 293, 7, 271,
    9, 10, 11, 25, 12, 28, 158, 13, 14, 15, 131, 202, 218, 273, 334, 56, 435, 57, 58, 59, 322,
    101, 60, 231, 61, 247, 62, 234, 39, 110, 186, 102, 107, 104, 108, 118, 120, 117, 119, 157,
    302, 97, 160, 63, 79, 89, 267, 21, 269, 439, 80, 81, 83, 258, 87, 263, 82, 264, 316, 86,
    265, 88, 266, 90, 91, 268, 92, 93, 260, 280, 76, 77, 306, 318, 228, 35, 204, 99, 41, 42, 49,
    50, 43, 288, 44, 45, 46, 47, 48, 54, 55, 52, 51, 125, 126, 109, 121, 112, 188, 189, 190,
    194, 195, 196, 197, 198, 199]

/-- `attestation`: the JSON text of what the configuration asks for. -/
def attestation (config : Config) : Text :=
  let rootfs := config.rootfs.flatMap fun c => if c = '\\' ∨ c = '"' then ['\\', c] else [c]
  "\x7b\"schema_version\":1,\"backend\":\"".toList ++
    (if config.backend = .vm then "vm".toList else "namespace".toList) ++
    "\",\"user_namespace\":".toList ++ Text.ofBool config.userNamespace ++
    ",\"mount_namespace\":".toList ++ Text.ofBool config.mountNamespace ++
    ",\"network_namespace\":".toList ++ Text.ofBool config.networkNamespace ++
    ",\"no_new_privileges\":".toList ++ Text.ofBool config.noNewPrivileges ++
    ",\"capabilities_dropped\":".toList ++ Text.ofBool config.dropCapabilities ++
    ",\"seccomp\":".toList ++ Text.ofBool (!config.seccompAllowlist.isEmpty) ++
    ",\"clean_environment\":".toList ++ Text.ofBool config.cleanEnvironment ++
    ",\"cgroup\":".toList ++ Text.ofBool (!config.cgroup.path.isEmpty) ++
    ",\"rootfs\":\"".toList ++ rootfs ++ "\"\x7d".toList

end ExeCell.Sandbox
