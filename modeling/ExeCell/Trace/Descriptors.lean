import ExeCell.Lib.Bindings
import ExeCell.Trace.Decoder

/-!
# What the decoder makes of descriptors

A system call is decoded in two halves: `on_entry` keeps the arguments in the pending
fields, `on_exit` joins them with the result. `Call` is a call as a whole, and `Call.op` what
it means for the descriptors of its task. No argument of one call gets into another
(`complete_lookup`), but the decoder compares whole registers where the kernel reads the lower
half only: a call it takes for another one (`Call.wide`) leaves its table as it is, and this is
right exactly when the call changes nothing (`descriptors_refine_iff`).
-/

namespace ExeCell.Trace

open SyscallDecoder

/-- A completed system call: what the tracer can read at its entry and at its exit. -/
structure Call where
  entry : Tracee
  exit : Tracee

/-- The descriptor and the path of `FileRead`, `FileWritten` and `FileClosed`. -/
def transferOf : Payload → Option (Int × Text)
  | .fileRead fd path _ => some (fd, path)
  | .fileWritten fd path _ => some (fd, path)
  | .fileClosed fd path => some (fd, path)
  | _ => none

namespace Call

def number (call : Call) : Int := (decodeFrame call.entry.registers).number

def result (call : Call) : Int := (decodeFrame call.exit.registers).result

/-- The first argument as a descriptor. -/
def fd (call : Call) : Int := toInt32 call.entry.registers.rdi

/-- The path of `open`, `openat` and `openat2`. -/
def path (call : Call) (pid : Pid) : Text :=
  if call.number = Sys.open then
    resolvePath pid atFdcwd (readProcessString call.entry.memory call.entry.registers.rdi)
  else
    resolvePath pid (toInt32 call.entry.registers.rdi)
      (readProcessString call.entry.memory call.entry.registers.rsi)

/-! The calls by what they do with descriptors. -/

def opens (call : Call) : Prop :=
  call.number = Sys.openat ∨ call.number = Sys.open ∨ call.number = Sys.openat2

def dups (call : Call) : Prop :=
  call.number = Sys.dup ∨ call.number = Sys.dup2 ∨ call.number = Sys.dup3

/-- `fcntl` with a command that duplicates; the kernel reads the command as 32 bits. -/
def fcntlDups (call : Call) : Prop :=
  call.number = Sys.fcntl ∧
    (toUInt32 call.entry.registers.rsi = fDupfd ∨
      toUInt32 call.entry.registers.rsi = fDupfdCloexec)

/-- What `on_entry` takes for such a command: it compares the whole register. -/
def fcntlSeen (call : Call) : Prop :=
  call.number = Sys.fcntl ∧
    (call.entry.registers.rsi = fDupfd ∨ call.entry.registers.rsi = fDupfdCloexec)

def reads (call : Call) : Prop :=
  call.number = Sys.read ∨ call.number = Sys.pread64 ∨ call.number = Sys.readv

def writes (call : Call) : Prop :=
  call.number = Sys.write ∨ call.number = Sys.pwrite64 ∨ call.number = Sys.writev

def closes (call : Call) : Prop := call.number = Sys.close

instance (call : Call) : Decidable call.opens := inferInstanceAs (Decidable (_ ∨ _))
instance (call : Call) : Decidable call.dups := inferInstanceAs (Decidable (_ ∨ _))
instance (call : Call) : Decidable call.fcntlDups := inferInstanceAs (Decidable (_ ∧ _))
instance (call : Call) : Decidable call.fcntlSeen := inferInstanceAs (Decidable (_ ∧ _))
instance (call : Call) : Decidable call.reads := inferInstanceAs (Decidable (_ ∨ _))
instance (call : Call) : Decidable call.writes := inferInstanceAs (Decidable (_ ∨ _))
instance (call : Call) : Decidable call.closes := inferInstanceAs (Decidable (_ = _))

/-- The call as the kernel takes it: the number is read as 32 bits, like the command of
`fcntl`. -/
def taken (call : Call) : Call where
  entry := { call.entry with
    registers := { call.entry.registers with
      origRax := toUInt32 call.entry.registers.origRax } }
  exit := call.exit

/-- The upper half of a register makes the decoder take the call, or its command, for another
one. -/
def wide (call : Call) : Prop :=
  call.taken.number ≠ call.number ∨
    call.taken.fcntlDups ∧ 2 ^ 32 ≤ call.entry.registers.rsi

instance (call : Call) : Decidable call.wide := inferInstanceAs (Decidable (_ ∨ _))

/-- What a call means for the descriptors of its task, by its number. -/
def means (call : Call) (pid : Pid) : Bindings.Op Int Text :=
  if call.opens ∧ call.result ≥ 0 then .bind call.result (call.path pid)
  else if (call.dups ∨ call.fcntlDups) ∧ call.result ≥ 0 then .copy call.fd call.result
  else if call.closes ∧ call.result = 0 then .unbind call.fd
  else .keep

/-- What the call means for the descriptors of its task. -/
def op (call : Call) (pid : Pid) : Bindings.Op Int Text := call.taken.means pid

/-- `on_entry` and then `on_exit`: the table of the task and the event. -/
def complete (call : Call) (pid : Pid) (table : FdTable) : FdTable × Option Payload :=
  (onEntry pid call.entry).1.onExit table pid call.exit

/-- The call is not `close_range`, its result fits an `int`, and a descriptor that is
duplicated is not negative. -/
structure Regular (call : Call) : Prop where
  notRange : call.taken.number ≠ Sys.closeRange
  fits : -2 ^ 31 ≤ call.result ∧ call.result < 2 ^ 31
  source : call.taken.dups ∨ call.taken.fcntlDups → call.result ≥ 0 → call.fd ≥ 0

end Call

/-! ## The first half -/

section Entry

variable {pid : Pid} {call : Call}

theorem onEntry_currentSyscall (pid : Pid) (tracee : Tracee) :
    (onEntry pid tracee).1.currentSyscall = (decodeFrame tracee.registers).number := by
  fun_cases SyscallDecoder.onEntry pid tracee <;> dsimp only

theorem pendingPath_opens (h : call.opens) :
    (onEntry pid call.entry).1.pendingPath = call.path pid := by
  unfold Call.opens Call.number at h
  unfold Call.path Call.number
  rw [onEntry]
  dsimp only
  generalize (decodeFrame call.entry.registers).number = number at *
  iterate 5 rw [if_neg (by rcases h with rfl | rfl | rfl <;> decide)]
  rw [if_pos h]
  by_cases hopen : number = Sys.open
  · rw [if_pos hopen, if_pos hopen, if_pos hopen]
  · rw [if_neg hopen, if_neg hopen, if_neg hopen]

theorem pendingFd_dups (h : call.dups) : (onEntry pid call.entry).1.pendingFd = call.fd := by
  unfold Call.dups Call.number at h
  rw [onEntry]
  dsimp only
  generalize (decodeFrame call.entry.registers).number = number at *
  iterate 4 rw [if_neg (by rcases h with rfl | rfl | rfl <;> decide)]
  rw [if_pos h, Call.fd]

theorem pendingFd_fcntlSeen (h : call.fcntlSeen) :
    (onEntry pid call.entry).1.pendingFd = call.fd := by
  obtain ⟨hnumber, hcommand⟩ := h
  unfold Call.number at hnumber
  rw [onEntry]
  dsimp only
  rw [hnumber]
  iterate 14 rw [if_neg (by decide)]
  rw [if_pos ⟨rfl, hcommand⟩, Call.fd]

/-- The other commands of `fcntl` leave no descriptor behind. -/
theorem pendingFd_fcntl (hnumber : call.number = Sys.fcntl) (h : ¬call.fcntlSeen) :
    (onEntry pid call.entry).1.pendingFd = -1 := by
  have hcommand := fun hcommand => h ⟨hnumber, hcommand⟩
  unfold Call.number at hnumber
  rw [onEntry]
  dsimp only
  rw [hnumber]
  iterate 14 rw [if_neg (by decide)]
  rw [if_neg fun hdup => hcommand hdup.2]
  iterate 4 rw [if_neg (by decide)]

theorem pendingFd_fchmod (h : call.number = Sys.fchmod) :
    (onEntry pid call.entry).1.pendingFd = call.fd := by
  unfold Call.number at h
  rw [onEntry]
  dsimp only
  rw [h]
  iterate 13 rw [if_neg (by decide)]
  rw [if_pos rfl, Call.fd]

theorem onEntry_closeRange (h : call.number = Sys.closeRange) :
    (onEntry pid call.entry).1.pendingFd = call.fd ∧
      (onEntry pid call.entry).1.pendingCloseRangeEnd = toUInt32 call.entry.registers.rsi := by
  unfold Call.number at h
  rw [onEntry]
  dsimp only
  rw [h]
  iterate 14 rw [if_neg (by decide)]
  rw [if_neg fun hdup => absurd hdup.1 (by decide), if_neg (by decide), if_pos rfl, Call.fd]
  constructor <;> dsimp only

theorem pendingFd_transfer (h : call.reads ∨ call.writes ∨ call.closes) :
    (onEntry pid call.entry).1.pendingFd = call.fd := by
  have hlast : call.number = Sys.read ∨ call.number = Sys.write ∨ call.number = Sys.close ∨
      call.number = Sys.pread64 ∨ call.number = Sys.pwrite64 ∨ call.number = Sys.readv ∨
      call.number = Sys.writev := by
    unfold Call.reads Call.writes Call.closes at h
    generalize call.number = number at h
    tauto
  unfold Call.number at hlast
  rw [onEntry]
  dsimp only
  generalize (decodeFrame call.entry.registers).number = number at *
  have hne : number ≠ Sys.fcntl := by
    rcases hlast with rfl | rfl | rfl | rfl | rfl | rfl | rfl <;> decide
  iterate 14 rw [if_neg (by rcases hlast with rfl | rfl | rfl | rfl | rfl | rfl | rfl <;> decide)]
  rw [if_neg fun hdup => hne hdup.1]
  iterate 3 rw [if_neg (by rcases hlast with rfl | rfl | rfl | rfl | rfl | rfl | rfl <;> decide)]
  rw [if_pos hlast, Call.fd]

end Entry

/-! ## The second half -/

section Exit

variable {d : SyscallDecoder} {table : FdTable} {pid : Pid} {tracee : Tracee}

theorem onExit_opens
    (h : d.currentSyscall = Sys.openat ∨ d.currentSyscall = Sys.open ∨
      d.currentSyscall = Sys.openat2)
    (hresult : (decodeFrame tracee.registers).result ≥ 0) :
    (d.onExit table pid tracee).1 =
      table.track (toInt32 (decodeFrame tracee.registers).result) d.pendingPath := by
  rw [onExit]
  generalize d.currentSyscall = number at *
  iterate 5 rw [if_neg fun hc => absurd hc.1 (by rcases h with rfl | rfl | rfl <;> decide)]
  rw [if_pos ⟨h, hresult⟩]

theorem onExit_fcntl (h : d.currentSyscall = Sys.fcntl)
    (hresult : (decodeFrame tracee.registers).result ≥ 0) (hfd : d.pendingFd ≥ 0) :
    (d.onExit table pid tracee).1 =
      table.duplicate d.pendingFd (toInt32 (decodeFrame tracee.registers).result) := by
  rw [onExit, h]
  iterate 12 rw [if_neg fun hc => absurd hc.1 (by decide)]
  rw [if_pos ⟨rfl, hresult, hfd⟩]

theorem onExit_dups
    (h : d.currentSyscall = Sys.dup ∨ d.currentSyscall = Sys.dup2 ∨
      d.currentSyscall = Sys.dup3)
    (hresult : (decodeFrame tracee.registers).result ≥ 0) :
    (d.onExit table pid tracee).1 =
      table.duplicate d.pendingFd (toInt32 (decodeFrame tracee.registers).result) := by
  rw [onExit]
  generalize d.currentSyscall = number at *
  iterate 14 rw [if_neg fun hc => absurd hc.1 (by rcases h with rfl | rfl | rfl <;> decide)]
  rw [if_neg fun hc => absurd hresult (not_le.mpr hc.1), if_pos ⟨h, hresult⟩]

theorem onExit_close (h : d.currentSyscall = Sys.close)
    (hresult : (decodeFrame tracee.registers).result = 0) :
    (d.onExit table pid tracee).1.lookup = Function.update table.lookup d.pendingFd none := by
  rw [onExit, h, hresult]
  iterate 18 rw [if_neg fun hc => absurd hc.1 (by decide)]
  rw [if_pos ⟨rfl, rfl⟩]
  cases hlookup : table.lookup d.pendingFd with
  | none => exact (Function.update_eq_self_iff.mpr hlookup.symm).symm
  | some path => exact table.lookup_close d.pendingFd

theorem onExit_closeRange (h : d.currentSyscall = Sys.closeRange)
    (hresult : (decodeFrame tracee.registers).result = 0) :
    (d.onExit table pid tracee).1 =
      table.closeRange (toUInt32 d.pendingFd) d.pendingCloseRangeEnd := by
  rw [onExit, h, hresult]
  iterate 13 rw [if_neg fun hc => absurd hc.1 (by decide)]
  rw [if_pos ⟨rfl, rfl⟩]

/-- No other call touches the table. -/
theorem onExit_keeps
    (hopens : ¬((d.currentSyscall = Sys.openat ∨ d.currentSyscall = Sys.open ∨
      d.currentSyscall = Sys.openat2) ∧ (decodeFrame tracee.registers).result ≥ 0))
    (hfcntl : ¬(d.currentSyscall = Sys.fcntl ∧ (decodeFrame tracee.registers).result ≥ 0 ∧
      d.pendingFd ≥ 0))
    (hrange : ¬(d.currentSyscall = Sys.closeRange ∧ (decodeFrame tracee.registers).result = 0))
    (hdups : ¬((d.currentSyscall = Sys.dup ∨ d.currentSyscall = Sys.dup2 ∨
      d.currentSyscall = Sys.dup3) ∧ (decodeFrame tracee.registers).result ≥ 0))
    (hclose : ¬(d.currentSyscall = Sys.close ∧ (decodeFrame tracee.registers).result = 0)) :
    (d.onExit table pid tracee).1 = table := by
  fun_cases SyscallDecoder.onExit d table pid tracee
  all_goals first | rfl | contradiction

/-- What `on_exit` does to the table, given the result of the call. -/
def SyscallDecoder.op (d : SyscallDecoder) (result : Int) : Bindings.Op Int Text :=
  if (d.currentSyscall = Sys.openat ∨ d.currentSyscall = Sys.open ∨
      d.currentSyscall = Sys.openat2) ∧ result ≥ 0 then
    .bind (toInt32 result) d.pendingPath
  else if d.currentSyscall = Sys.fcntl ∧ result ≥ 0 ∧ d.pendingFd ≥ 0 then
    .copy d.pendingFd (toInt32 result)
  else if d.currentSyscall = Sys.closeRange ∧ result = 0 then
    .clear fun fd => toUInt32 d.pendingFd ≤ toUInt32 fd ∧ toUInt32 fd ≤ d.pendingCloseRangeEnd
  else if (d.currentSyscall = Sys.dup ∨ d.currentSyscall = Sys.dup2 ∨
      d.currentSyscall = Sys.dup3) ∧ result ≥ 0 then
    .copy d.pendingFd (toInt32 result)
  else if d.currentSyscall = Sys.close ∧ result = 0 then .unbind d.pendingFd
  else .keep

theorem onExit_lookup (d : SyscallDecoder) (table : FdTable) (pid : Pid) (tracee : Tracee) :
    (d.onExit table pid tracee).1.lookup =
      (d.op (decodeFrame tracee.registers).result).apply table.lookup := by
  unfold SyscallDecoder.op
  split
  · rename_i h
    rw [onExit_opens h.1 h.2]
    exact table.lookup_track _ _
  split
  · rename_i _ h
    rw [onExit_fcntl h.1 h.2.1 h.2.2]
    exact table.lookup_duplicate _ _
  split
  · rename_i _ _ h
    rw [onExit_closeRange h.1 h.2, FdTable.lookup_closeRange]
    simp only [Bindings.Op.apply, decide_eq_true_eq]
  split
  · rename_i _ _ _ h
    rw [onExit_dups h.1 h.2]
    exact table.lookup_duplicate _ _
  split
  · rename_i _ _ _ _ h
    exact onExit_close h.1 h.2
  · rename_i hopens hfcntl hrange hdups hclose
    rw [onExit_keeps hopens hfcntl hrange hdups hclose]
    rfl

/-- A transfer is about the pending descriptor, under the path the table has for it. -/
theorem onExit_transfer {payload : Payload} {fd : Int} {path : Text}
    (h : (d.onExit table pid tracee).2 = some payload)
    (htransfer : transferOf payload = some (fd, path)) :
    ((d.currentSyscall = Sys.read ∨ d.currentSyscall = Sys.pread64 ∨
        d.currentSyscall = Sys.readv) ∨
      (d.currentSyscall = Sys.write ∨ d.currentSyscall = Sys.pwrite64 ∨
        d.currentSyscall = Sys.writev) ∨
      d.currentSyscall = Sys.close) ∧
    fd = d.pendingFd ∧ table.lookup fd = some path := by
  revert h
  fun_cases SyscallDecoder.onExit d table pid tracee
  all_goals intro h
  case case11 =>
    obtain ⟨_, _, rfl⟩ := Option.map_eq_some_iff.mp h
    cases htransfer
  case case17 hnumber =>
    obtain ⟨found, hfound, rfl⟩ := Option.map_eq_some_iff.mp h
    cases htransfer
    exact ⟨.inl hnumber.1, rfl, hfound⟩
  case case18 hnumber =>
    obtain ⟨found, hfound, rfl⟩ := Option.map_eq_some_iff.mp h
    cases htransfer
    exact ⟨.inr (.inl hnumber.1), rfl, hfound⟩
  case case20 hnumber found hfound =>
    cases h
    cases htransfer
    exact ⟨.inr (.inr hnumber.1), rfl, hfound⟩
  all_goals cases h
  all_goals cases htransfer

/-- `fchmod` is reported under the path the table has for the pending descriptor. -/
theorem onExit_fchmod {path : Text} {mode : Nat} (hnumber : d.currentSyscall = Sys.fchmod)
    (h : (d.onExit table pid tracee).2 = some (.fileModeChanged path mode)) :
    table.lookup d.pendingFd = some path := by
  revert h
  fun_cases SyscallDecoder.onExit d table pid tracee
  all_goals intro h
  case case10 hchmod => exact absurd (hchmod.1.symm.trans hnumber) (by decide)
  case case11 =>
    obtain ⟨found, hfound, hpayload⟩ := Option.map_eq_some_iff.mp h
    cases hpayload
    exact hfound
  case case12 hfchmodat => exact absurd (hfchmodat.1.symm.trans hnumber) (by decide)
  case case17 =>
    obtain ⟨_, _, hpayload⟩ := Option.map_eq_some_iff.mp h
    cases hpayload
  case case18 =>
    obtain ⟨_, _, hpayload⟩ := Option.map_eq_some_iff.mp h
    cases hpayload
  all_goals cases h

/-- A call that went well and is reported under the path of its descriptor, if it has one. -/
def SyscallDecoder.transfers (d : SyscallDecoder) (result : Int) : Prop :=
  (d.currentSyscall = Sys.read ∨ d.currentSyscall = Sys.pread64 ∨
      d.currentSyscall = Sys.readv) ∧ result ≥ 0 ∨
    (d.currentSyscall = Sys.write ∨ d.currentSyscall = Sys.pwrite64 ∨
      d.currentSyscall = Sys.writev) ∧ result ≥ 0 ∨
    d.currentSyscall = Sys.close ∧ result = 0

theorem snd_ite_congr {α β : Type} {c : Prop} [Decidable c] {a a' b b' : α × β}
    (ha : c → a.2 = a'.2) (hb : ¬c → b.2 = b'.2) :
    (if c then a else b).2 = (if c then a' else b').2 := by
  split
  · exact ha ‹_›
  · exact hb ‹_›

/-- The event of a call other than `fchmod` depends on the table only if the call is a
transfer, and then on the path of the pending descriptor. -/
theorem onExit_event_congr {table' : FdTable} (hnumber : d.currentSyscall ≠ Sys.fchmod)
    (h : d.transfers (decodeFrame tracee.registers).result →
      table.lookup d.pendingFd = table'.lookup d.pendingFd) :
    (d.onExit table pid tracee).2 = (d.onExit table' pid tracee).2 := by
  have hne : ∀ condition, ¬(d.currentSyscall = Sys.fchmod ∧ condition) :=
    fun _ hc => hnumber hc.1
  rw [onExit, onExit]
  iterate 10 refine snd_ite_congr (fun _ => rfl) fun _ => ?_
  rw [if_neg (hne _), if_neg (hne _)]
  iterate 5 refine snd_ite_congr (fun _ => rfl) fun _ => ?_
  refine snd_ite_congr (fun hread => ?_) fun _ => ?_
  · rw [h (.inl hread)]
  refine snd_ite_congr (fun hwrite => ?_) fun _ => ?_
  · rw [h (.inr (.inl hwrite))]
  refine snd_ite_congr (fun hclose => ?_) fun _ => rfl
  rw [h (.inr (.inr hclose))]
  cases table'.lookup d.pendingFd with
  | none => rfl
  | some path => rfl

end Exit

/-! ## Both halves -/

section Complete

variable {pid : Pid} {call : Call} {table : FdTable}

theorem complete_opens (h : call.opens) (hresult : call.result ≥ 0) :
    (call.complete pid table).1 = table.track (toInt32 call.result) (call.path pid) := by
  have hpath := @pendingPath_opens pid call h
  unfold Call.opens Call.number at h
  rw [← onEntry_currentSyscall pid] at h
  rw [← hpath]
  exact onExit_opens h hresult

theorem complete_dups (h : call.dups) (hresult : call.result ≥ 0) :
    (call.complete pid table).1 = table.duplicate call.fd (toInt32 call.result) := by
  have hfd := @pendingFd_dups pid call h
  unfold Call.dups Call.number at h
  rw [← onEntry_currentSyscall pid] at h
  rw [← hfd]
  exact onExit_dups h hresult

theorem complete_fcntlSeen (h : call.fcntlSeen) (hresult : call.result ≥ 0)
    (hsource : call.fd ≥ 0) :
    (call.complete pid table).1 = table.duplicate call.fd (toInt32 call.result) := by
  have hfd := @pendingFd_fcntlSeen pid call h
  rw [← hfd] at hsource ⊢
  exact onExit_fcntl ((onEntry_currentSyscall pid _).trans h.1) hresult hsource

theorem complete_closes (h : call.closes) (hresult : call.result = 0) :
    (call.complete pid table).1.lookup = Function.update table.lookup call.fd none := by
  have hfd := @pendingFd_transfer pid call (.inr (.inr h))
  rw [← hfd]
  exact onExit_close ((onEntry_currentSyscall pid _).trans h) hresult

theorem complete_closeRange (h : call.number = Sys.closeRange) (hresult : call.result = 0) :
    (call.complete pid table).1 =
      table.closeRange (toUInt32 call.fd) (toUInt32 call.entry.registers.rsi) := by
  obtain ⟨hfd, hlast⟩ := @onEntry_closeRange pid call h
  rw [← hfd, ← hlast]
  exact onExit_closeRange ((onEntry_currentSyscall pid _).trans h) hresult

theorem complete_keeps (hopens : ¬(call.opens ∧ call.result ≥ 0))
    (hdups : ¬((call.dups ∨ call.fcntlSeen) ∧ call.result ≥ 0))
    (hclose : ¬(call.closes ∧ call.result = 0))
    (hrange : ¬(call.number = Sys.closeRange ∧ call.result = 0)) :
    (call.complete pid table).1 = table := by
  refine onExit_keeps ?_ ?_ ?_ ?_ ?_
  all_goals rw [onEntry_currentSyscall]
  · exact hopens
  · rintro ⟨hnumber, hresult, hfd⟩
    by_cases hcommand : call.fcntlSeen
    · exact hdups ⟨.inr hcommand, hresult⟩
    · rw [pendingFd_fcntl hnumber hcommand] at hfd
      exact absurd hfd (by decide)
  · exact hrange
  · exact fun h => hdups ⟨.inl h.1, h.2⟩
  · exact hclose

/-- The numbers of the calls that touch the table. -/
def tableCalls : List Int :=
  [Sys.openat, Sys.open, Sys.openat2, Sys.dup, Sys.dup2, Sys.dup3, Sys.fcntl, Sys.close,
    Sys.closeRange]

theorem complete_of_notMem (h : call.number ∉ tableCalls) :
    (call.complete pid table).1 = table := by
  have hne : ∀ number ∈ tableCalls, call.number ≠ number := by
    rintro number hnumber rfl
    exact h hnumber
  refine complete_keeps ?_ ?_ ?_ ?_
  · rintro ⟨hopenat | hopen | hopenat2, -⟩
    · exact hne _ (by decide) hopenat
    · exact hne _ (by decide) hopen
    · exact hne _ (by decide) hopenat2
  · rintro ⟨(hdup | hdup2 | hdup3) | hfcntl, -⟩
    · exact hne _ (by decide) hdup
    · exact hne _ (by decide) hdup2
    · exact hne _ (by decide) hdup3
    · exact hne _ (by decide) hfcntl.1
  · exact fun hclose => hne _ (by decide) hclose.1
  · exact fun hrange => hne _ (by decide) hrange.1

/-! ### The upper half of the registers -/

/-- A number of 32 bits is read alike by both. -/
theorem taken_number (h : 0 ≤ call.number ∧ call.number < 2 ^ 32) :
    call.taken.number = call.number := by
  unfold Call.number Call.taken decodeFrame toInt64 toUInt32 at *
  dsimp only at *
  rw [Int.bmod_def] at h ⊢
  rw [Int.bmod_def]
  split at h <;> split <;> omega

theorem taken_fcntlDups (h : call.taken.number = call.number) :
    call.taken.fcntlDups ↔ call.fcntlDups := by
  unfold Call.fcntlDups
  rw [h]
  rfl

/-- A command of 32 bits is seen as what it is. -/
theorem fcntlSeen_iff (h : call.entry.registers.rsi < 2 ^ 32) :
    call.fcntlSeen ↔ call.fcntlDups := by
  have hrsi : toUInt32 call.entry.registers.rsi = call.entry.registers.rsi := by
    unfold toUInt32
    omega
  unfold Call.fcntlSeen Call.fcntlDups
  rw [hrsi]

theorem rsi_of_fcntlSeen (h : call.fcntlSeen) : call.entry.registers.rsi < 2 ^ 32 := by
  have hcommand := h.2
  unfold fDupfd fDupfdCloexec at hcommand
  omega

theorem fcntlDups_of_seen (h : call.fcntlSeen) : call.fcntlDups :=
  (fcntlSeen_iff (rsi_of_fcntlSeen h)).mp h

/-- A command of `fcntl` that is not seen leaves the table alone. -/
theorem complete_unseen (hnumber : call.number = Sys.fcntl) (h : ¬call.fcntlSeen) :
    (call.complete pid table).1 = table := by
  refine complete_keeps ?_ ?_ ?_ ?_
  · unfold Call.opens
    rw [hnumber]
    exact fun hopens => absurd hopens.1 (by decide)
  · unfold Call.dups
    rw [hnumber]
    rintro ⟨hdup | hcommand, -⟩
    · exact absurd hdup (by decide)
    · exact h hcommand
  · unfold Call.closes
    rw [hnumber]
    exact fun hclose => absurd hclose.1 (by decide)
  · rw [hnumber]
    exact fun hrange => absurd hrange.1 (by decide)

/-- A wide call leaves the table alone, whatever it does. -/
theorem complete_wide (h : call.wide) : (call.complete pid table).1 = table := by
  by_cases hnumber : call.taken.number = call.number
  · obtain ⟨hdups, hrsi⟩ := h.resolve_left (not_not.mpr hnumber)
    exact complete_unseen (hnumber.symm.trans hdups.1) fun hseen =>
      absurd (rsi_of_fcntlSeen hseen) (not_lt.mpr hrsi)
  · -- the number is not one of 32 bits, and those of the table are
    refine complete_of_notMem fun hmem => hnumber (taken_number ?_)
    have hsmall : ∀ number ∈ tableCalls, 0 ≤ number ∧ number < 2 ^ 32 := by decide
    exact hsmall _ hmem

/-- A call with its number in 32 bits means what it is decoded as. -/
theorem op_of_number (h : call.taken.number = call.number) : call.op pid = call.means pid := by
  have hopens : call.taken.opens ↔ call.opens := by
    unfold Call.opens
    rw [h]
  have hdups : call.taken.dups ↔ call.dups := by
    unfold Call.dups
    rw [h]
  have hcloses : call.taken.closes ↔ call.closes := by
    unfold Call.closes
    rw [h]
  have hpath : call.taken.path pid = call.path pid := by
    unfold Call.path
    rw [h]
    rfl
  have hresult : call.taken.result = call.result := rfl
  have hfd : call.taken.fd = call.fd := rfl
  unfold Call.op Call.means
  simp only [hopens, hdups, taken_fcntlDups h, hcloses, hpath, hresult, hfd]

/-- Any other call does to the table what it means for the descriptors. -/
theorem complete_lookup (h : call.Regular) (hwide : ¬call.wide) :
    (call.complete pid table).1.lookup = (call.op pid).apply table.lookup := by
  obtain ⟨hnumber, hcommand⟩ := not_or.mp hwide
  have hnumber := not_not.mp hnumber
  have hdup : call.taken.dups ↔ call.dups := by
    unfold Call.dups
    rw [hnumber]
  have hfcntl := taken_fcntlDups hnumber
  have hseen : call.fcntlDups → call.fcntlSeen := by
    intro hdups
    refine (fcntlSeen_iff ?_).mpr hdups
    exact not_le.mp fun hrsi => hcommand ⟨hfcntl.mpr hdups, hrsi⟩
  have hsource := h.source
  rw [hdup, hfcntl] at hsource
  have hrange := h.notRange
  rw [hnumber] at hrange
  have hfits : toInt32 call.result = call.result :=
    Int.bmod_eq_of_le (by have := h.fits; omega) (by have := h.fits; omega)
  rw [op_of_number hnumber]
  unfold Call.means
  by_cases hopens : call.opens ∧ call.result ≥ 0
  · rw [if_pos hopens, complete_opens hopens.1 hopens.2, hfits]
    exact table.lookup_track _ _
  rw [if_neg hopens]
  by_cases hdups : (call.dups ∨ call.fcntlDups) ∧ call.result ≥ 0
  · rw [if_pos hdups]
    have hduplicate :
        (call.complete pid table).1 = table.duplicate call.fd (toInt32 call.result) := by
      rcases hdups.1 with hdup | hcommand
      · exact complete_dups hdup hdups.2
      · exact complete_fcntlSeen (hseen hcommand) hdups.2 (hsource hdups.1 hdups.2)
    rw [hduplicate, hfits]
    exact table.lookup_duplicate _ _
  rw [if_neg hdups]
  by_cases hclose : call.closes ∧ call.result = 0
  · rw [if_pos hclose, complete_closes hclose.1 hclose.2]
    rfl
  · have hkeeps : ¬((call.dups ∨ call.fcntlSeen) ∧ call.result ≥ 0) := fun hseen =>
      hdups ⟨hseen.1.imp_right fcntlDups_of_seen, hseen.2⟩
    rw [if_neg hclose, complete_keeps hopens hkeeps hclose fun hc => hrange hc.1]
    rfl

/-- The table follows a call exactly when the call is not wide, or changes nothing. -/
theorem complete_follows_iff (h : call.Regular) :
    (call.complete pid table).1.lookup = (call.op pid).apply table.lookup ↔
      (call.wide → (call.op pid).apply table.lookup = table.lookup) := by
  by_cases hwide : call.wide
  · rw [complete_wide hwide]
    constructor
    · exact fun hfollows _ => hfollows.symm
    · exact fun hidle => (hidle hwide).symm
  · exact iff_of_true (complete_lookup h hwide) fun hc => absurd hc hwide

/-- A transfer is about the descriptor of the call. -/
theorem complete_transfer {payload : Payload} {fd : Int} {path : Text}
    (h : (call.complete pid table).2 = some payload)
    (htransfer : transferOf payload = some (fd, path)) :
    fd = call.fd ∧ table.lookup fd = some path := by
  obtain ⟨hnumber, hfd, hlookup⟩ := onExit_transfer h htransfer
  rw [onEntry_currentSyscall] at hnumber
  rw [pendingFd_transfer hnumber] at hfd
  exact ⟨hfd, hlookup⟩

theorem complete_fchmod {path : Text} {mode : Nat} (hnumber : call.number = Sys.fchmod)
    (h : (call.complete pid table).2 = some (.fileModeChanged path mode)) :
    table.lookup call.fd = some path := by
  rw [← @pendingFd_fchmod pid call hnumber]
  exact onExit_fchmod ((onEntry_currentSyscall pid _).trans hnumber) h

end Complete

/-! ## Sequences of calls -/

section Sequences

variable {pid : Pid}

/-- The table of a task after completed calls. -/
def tableAfter (pid : Pid) (table : FdTable) (calls : List Call) : FdTable :=
  calls.foldl (fun table call => (call.complete pid table).1) table

/-- What the descriptors of a task are bound to after completed calls. -/
def bindingsAfter (pid : Pid) (bindings : Int → Option Text) (calls : List Call) :
    Int → Option Text :=
  calls.foldl (fun bindings call => (call.op pid).apply bindings) bindings

/-- The table has the bindings the calls made, and a transfer is reported under the path its
descriptor is bound to just before. -/
structure Refines (pid : Pid) (table : FdTable) (calls : List Call) : Prop where
  bindings : (tableAfter pid table calls).lookup = bindingsAfter pid table.lookup calls
  transfers : ∀ before call after, calls = before ++ call :: after →
    ∀ payload fd path, (call.complete pid (tableAfter pid table before)).2 = some payload →
      transferOf payload = some (fd, path) →
      fd = call.fd ∧ bindingsAfter pid table.lookup before fd = some path

/-- No wide call among these changes what its task has bound. -/
def WideIdle (pid : Pid) (bindings : Int → Option Text) (calls : List Call) : Prop :=
  ∀ before call after, calls = before ++ call :: after → call.wide →
    (call.op pid).apply (bindingsAfter pid bindings before) = bindingsAfter pid bindings before

section

variable {table : FdTable} {calls before after : List Call} {call : Call}

theorem tableAfter_append : tableAfter pid table (calls ++ [call]) =
    (call.complete pid (tableAfter pid table calls)).1 := by
  unfold tableAfter
  rw [List.foldl_append, List.foldl_cons, List.foldl_nil]

theorem bindingsAfter_append {bindings : Int → Option Text} :
    bindingsAfter pid bindings (calls ++ [call]) =
      (call.op pid).apply (bindingsAfter pid bindings calls) := by
  unfold bindingsAfter
  rw [List.foldl_append, List.foldl_cons, List.foldl_nil]

theorem WideIdle.front {bindings : Int → Option Text}
    (h : WideIdle pid bindings (before ++ after)) : WideIdle pid bindings before := by
  rintro earlier call later rfl hwide
  refine h earlier call (later ++ after) ?_ hwide
  rw [List.append_assoc, List.cons_append]

theorem tableAfter_lookup (h : ∀ call ∈ calls, call.Regular)
    (hidle : WideIdle pid table.lookup calls) :
    (tableAfter pid table calls).lookup = bindingsAfter pid table.lookup calls := by
  induction calls using List.reverseRecOn with
  | nil => rfl
  | append_singleton calls call ih =>
    have hcalls := ih (fun earlier hearlier => h earlier (List.mem_append_left _ hearlier))
      hidle.front
    rw [tableAfter_append, bindingsAfter_append, ← hcalls]
    refine (complete_follows_iff (h call (by simp))).mpr fun hwide => ?_
    rw [hcalls]
    exact hidle calls call [] rfl hwide

theorem descriptors_refine (h : ∀ call ∈ calls, call.Regular)
    (hidle : WideIdle pid table.lookup calls) : Refines pid table calls := by
  refine ⟨tableAfter_lookup h hidle, ?_⟩
  rintro before call after rfl payload fd path hpayload htransfer
  have hbefore := tableAfter_lookup
    (fun earlier hearlier => h earlier (List.mem_append_left _ hearlier)) hidle.front
  obtain ⟨hfd, hlookup⟩ := complete_transfer hpayload htransfer
  rw [hbefore] at hlookup
  exact ⟨hfd, hlookup⟩

end

/-- The decoder follows a task through all of its calls exactly when every wide call leaves
the bindings as they are. -/
theorem descriptors_refine_iff (pid : Pid) (table : FdTable) (calls : List Call)
    (h : ∀ call ∈ calls, call.Regular) :
    (∀ before, before <+: calls → Refines pid table before) ↔
      WideIdle pid table.lookup calls := by
  constructor
  · rintro hrefines before call after rfl hwide
    have hregular : call.Regular := h call (by simp)
    have hbefore := (hrefines before (List.prefix_append _ _)).bindings
    have hcall := (hrefines (before ++ [call]) (by simp)).bindings
    rw [tableAfter_append, bindingsAfter_append, ← hbefore] at hcall
    rw [← hbefore]
    exact (complete_follows_iff hregular).mp hcall hwide
  · rintro hidle before ⟨after, rfl⟩
    exact descriptors_refine (fun call hcall => h call (List.mem_append_left _ hcall)) hidle.front

/-- The text `/f` at address 4096. -/
def pathMemory : Memory := fun address =>
  if address = 4096 then some '/' else if address = 4097 then some 'f' else some '\x00'

/-- A call with its number, its first two arguments and its result. -/
def callOf (number rdi rsi result : Nat) : Call where
  entry := { registers := { origRax := number, rdi := rdi, rsi := rsi }, memory := pathMemory }
  exit := { registers := { origRax := number, rax := result }, memory := pathMemory }

/-- `open` gives 3, `fcntl` of 3 with `2 ^ 32` for the command gives 4, and `read` of 4. -/
def wideCalls : List Call := [callOf 2 4096 0 3, callOf 72 3 (2 ^ 32) 4, callOf 0 4 0 10]

/-- The kernel has 4 for the file, the table has nothing, and the `read` is not reported. -/
theorem not_refines_wide :
    (∀ call ∈ wideCalls, call.Regular) ∧ ¬Refines 7 {} wideCalls ∧
      bindingsAfter 7 (fun _ => none) wideCalls 4 = some "/f".toList ∧
      ((callOf 0 4 0 10).complete 7 (tableAfter 7 {} (wideCalls.take 2))).2 = none := by
  refine ⟨?_, ?_, by decide +kernel, by decide +kernel⟩
  · simp only [wideCalls, List.forall_mem_cons]
    exact ⟨⟨by decide, by decide, by decide⟩, ⟨by decide, by decide, by decide⟩,
      ⟨by decide, by decide, by decide⟩, nofun⟩
  · intro hrefines
    have hfour := congrFun hrefines.bindings 4
    exact absurd hfour (by decide +kernel)

/-- `open` gives 3, `dup` of 3 gives 4, `close` of 3, and `read` of 4. -/
theorem descriptors_refine_dup :
    let calls := [callOf 2 4096 0 3, callOf 32 3 0 4, callOf 3 3 0 0, callOf 0 4 0 10]
    (∀ before, before <+: calls → Refines 7 {} before) ∧
      bindingsAfter 7 (fun _ => none) calls 3 = none ∧
      bindingsAfter 7 (fun _ => none) calls 4 = some "/f".toList ∧
      ((callOf 0 4 0 10).complete 7 (tableAfter 7 {} (calls.take 3))).2 =
        some (.fileRead 4 "/f".toList 10) := by
  have hregular : ∀ call ∈ [callOf 2 4096 0 3, callOf 32 3 0 4, callOf 3 3 0 0, callOf 0 4 0 10],
      call.Regular ∧ ¬call.wide := by
    simp only [List.forall_mem_cons]
    exact ⟨⟨⟨by decide, by decide, by decide⟩, by decide⟩,
      ⟨⟨by decide, by decide, by decide⟩, by decide⟩,
      ⟨⟨by decide, by decide, by decide⟩, by decide⟩,
      ⟨⟨by decide, by decide, by decide⟩, by decide⟩, nofun⟩
  refine ⟨(descriptors_refine_iff 7 {} _ fun call hcall => (hregular call hcall).1).mpr ?_,
    by decide +kernel, by decide +kernel, by decide +kernel⟩
  intro before call after hcalls hwide
  exact absurd hwide (hregular call (hcalls ▸ by simp)).2

end Sequences

end ExeCell.Trace
