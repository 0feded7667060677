import ExeCell.Lib.Bpf
import ExeCell.Sandbox.Config

/-!
# The seccomp filter

`install_seccomp` compiles an allowlist of system calls into a classic BPF program. Each
entry of the list becomes a comparison, which falls through to a return when the number is
equal and jumps over it otherwise. The length goes into a 16-bit field of `sock_fprog`, so
the kernel is given only a part of a program of more than 65535 instructions.

`filter_means` says what the kernel makes of the program.
-/

namespace ExeCell.Sandbox

open Bpf

/-- `AUDIT_ARCH_X86_64`. -/
def auditArchX86_64 : Word := 0xC000003E

/-- `SECCOMP_RET_KILL_PROCESS`. -/
def retKillProcess : Word := 0x80000000

/-- `SECCOMP_RET_ALLOW`. -/
def retAllow : Word := 0x7FFF0000

/-- `SECCOMP_RET_ERRNO`. -/
def retErrno : Word := 0x00050000

/-- `EPERM`. -/
def eperm : Word := 1

/-- `seccomp_data`. -/
structure SeccompData where
  nr : Word
  arch : Word
  instructionPointer : BitVec 64 := 0
  args : Fin 6 → BitVec 64 := fun _ => 0

/-- The 32-bit word at an offset into the record, little-endian. -/
def SeccompData.word (data : SeccompData) (offset : Word) : Option Word :=
  let low (value : BitVec 64) : Word := value.setWidth 32
  let high (value : BitVec 64) : Word := (value >>> 32).setWidth 32
  match offset.toNat with
  | 0 => some data.nr
  | 4 => some data.arch
  | 8 => some (low data.instructionPointer)
  | 12 => some (high data.instructionPointer)
  | 16 => some (low (data.args 0))
  | 20 => some (high (data.args 0))
  | 24 => some (low (data.args 1))
  | 28 => some (high (data.args 1))
  | 32 => some (low (data.args 2))
  | 36 => some (high (data.args 2))
  | 40 => some (low (data.args 3))
  | 44 => some (high (data.args 3))
  | 48 => some (low (data.args 4))
  | 52 => some (high (data.args 4))
  | 56 => some (low (data.args 5))
  | 60 => some (high (data.args 5))
  | _ => none

/-- `offsetof(seccomp_data, nr)`. -/
def offsetNr : Word := 0

/-- `offsetof(seccomp_data, arch)`. -/
def offsetArch : Word := 4

/-- The instructions before the list. -/
def filterHead : List Instr :=
  [stmt ldAbs offsetArch, jump jumpEq auditArchX86_64 1 0, stmt retK retKillProcess,
    stmt ldAbs offsetNr]

/-- The instructions of one entry. -/
def filterEntry (syscallNumber : Int) : List Instr :=
  [jump jumpEq (BitVec.ofInt 32 syscallNumber) 0 1, stmt retK retAllow]

/-- The instructions from the first entry on. -/
def filterTail (allowlist : List Int) : List Instr :=
  allowlist.flatMap filterEntry ++ [stmt retK (retErrno ||| eperm)]

/-- The vector `filter` of `install_seccomp`. -/
def filter (allowlist : List Int) : List Instr := filterHead ++ filterTail allowlist

/-- The program that `sock_fprog` describes: its length is an `unsigned short`. -/
def installed (allowlist : List Int) : List Instr :=
  (filter allowlist).take ((filter allowlist).length % 2 ^ 16)

/-- What the filter is to answer. -/
def Allows (allowlist : List Int) (nr : Word) : Prop :=
  ∃ syscallNumber ∈ allowlist, BitVec.ofInt 32 syscallNumber = nr

instance (allowlist : List Int) (nr : Word) : Decidable (Allows allowlist nr) :=
  inferInstanceAs (Decidable (∃ syscallNumber ∈ allowlist, BitVec.ofInt 32 syscallNumber = nr))

def answer (allowlist : List Int) (data : SeccompData) : Word :=
  if data.arch ≠ auditArchX86_64 then retKillProcess
  else if Allows allowlist data.nr then retAllow
  else retErrno ||| eperm

/-! ## Running the program -/

theorem length_filterTail (allowlist : List Int) :
    (filterTail allowlist).length = 2 * allowlist.length + 1 := by
  induction allowlist with
  | nil => rfl
  | cons syscallNumber allowlist ih =>
    have hcons : (filterTail (syscallNumber :: allowlist)).length =
        2 + (filterTail allowlist).length := by
      simp [filterTail, filterEntry]
      omega
    rw [hcons, ih, List.length_cons]
    omega

theorem length_filter (allowlist : List Int) :
    (filter allowlist).length = 2 * allowlist.length + 5 := by
  have hhead : filterHead.length = 4 := rfl
  rw [filter, List.length_append, length_filterTail, hhead]
  omega

/-- The rest of the program looks the number up in the rest of the list. -/
theorem run_filterTail {program : List Instr} (data : SeccompData) {allowlist : List Int}
    {pc steps : Nat} (hprogram : program.drop pc = filterTail allowlist)
    (hsteps : 2 * allowlist.length + 1 ≤ steps) :
    run program data.word steps (.running pc data.nr) =
      .returned (if Allows allowlist data.nr then retAllow else retErrno ||| eperm) := by
  induction allowlist generalizing pc steps with
  | nil =>
    obtain ⟨steps, rfl⟩ : ∃ rest, steps = rest + 1 := ⟨steps - 1, by omega⟩
    have hlast : program[pc]? = some (stmt retK (retErrno ||| eperm)) :=
      fetch_of_drop hprogram 0
    rw [run_ret hlast, if_neg (by simp [Allows])]
  | cons syscallNumber allowlist ih =>
    rw [List.length_cons] at hsteps
    obtain ⟨steps, rfl⟩ : ∃ rest, steps = rest + 1 + 1 := ⟨steps - 2, by omega⟩
    have hjump : program[pc]? = some (jump jumpEq (BitVec.ofInt 32 syscallNumber) 0 1) :=
      fetch_of_drop hprogram 0
    have hret : program[pc + 1]? = some (stmt retK retAllow) := fetch_of_drop hprogram 1
    rw [run_jumpEq hjump]
    by_cases heq : data.nr = BitVec.ofInt 32 syscallNumber
    · rw [if_pos heq, if_pos ⟨syscallNumber, List.mem_cons_self, heq.symm⟩]
      exact run_ret hret
    · -- the jump goes to the first instruction of the next entry
      have hrest : program.drop (pc + 2) = filterTail allowlist := by
        rw [← List.drop_drop, hprogram]
        rfl
      have hallows : Allows (syscallNumber :: allowlist) data.nr ↔ Allows allowlist data.nr := by
        simp only [Allows, List.mem_cons, exists_eq_or_imp, or_iff_right_iff_imp]
        exact fun h => absurd h.symm heq
      simp only [if_neg heq, hallows]
      exact ih hrest (by omega)

theorem exec_filter (allowlist : List Int) (data : SeccompData) :
    exec (filter allowlist) data.word = .returned (answer allowlist data) := by
  have harchAt : (filter allowlist)[0]? = some (stmt ldAbs offsetArch) := rfl
  have hjumpAt : (filter allowlist)[1]? = some (jump jumpEq auditArchX86_64 1 0) := rfl
  have hkillAt : (filter allowlist)[2]? = some (stmt retK retKillProcess) := rfl
  have hnrAt : (filter allowlist)[3]? = some (stmt ldAbs offsetNr) := rfl
  have harch : data.word offsetArch = some data.arch := rfl
  have hnr : data.word offsetNr = some data.nr := rfl
  have hsteps : (filter allowlist).length = 2 * allowlist.length + 1 + 1 + 1 + 1 + 1 := by
    rw [length_filter]
  rw [exec, hsteps, run_load harchAt harch, run_jumpEq hjumpAt, answer]
  by_cases hsame : data.arch = auditArchX86_64
  · rw [if_pos hsame, if_neg (fun h => h hsame)]
    exact (run_load hnrAt hnr).trans (run_filterTail data rfl (by omega))
  · rw [if_neg hsame, if_pos hsame]
    exact run_ret hkillAt

/-! ## What the kernel is given -/

theorem installed_eq {allowlist : List Int} (h : 2 * allowlist.length + 5 ≤ maxInstructions) :
    installed allowlist = filter allowlist := by
  have hlength := length_filter allowlist
  unfold maxInstructions at h
  rw [installed, Nat.mod_eq_of_lt (by omega), List.take_length]

theorem filterTail_cons (syscallNumber : Int) (allowlist : List Int) :
    filterTail (syscallNumber :: allowlist) =
      jump jumpEq (BitVec.ofInt 32 syscallNumber) 0 1 :: stmt retK retAllow ::
        filterTail allowlist := rfl

theorem jumpsInside_filterTail (allowlist : List Int) : JumpsInside (filterTail allowlist) := by
  induction allowlist with
  | nil => exact jumpsInside_cons.mpr ⟨(fun _ h => nomatch h), jumpsInside_nil⟩
  | cons syscallNumber allowlist ih =>
    rw [filterTail_cons, jumpsInside_cons, jumpsInside_cons]
    refine ⟨?_, fun _ h => (nomatch h), ih⟩
    intro offset hmem
    have hshort : offset ≤ 1 := by
      have htwo : offset ∈ [0, 1] := hmem
      simp only [List.mem_cons, List.not_mem_nil, or_false] at htwo
      omega
    rw [List.length_cons, length_filterTail]
    omega

theorem jumpsInside_filter (allowlist : List Int) : JumpsInside (filter allowlist) := by
  have hlength := length_filterTail allowlist
  have hskip : ∀ offset ∈ (jump jumpEq auditArchX86_64 1 0).offsets,
      offset < (filterTail allowlist).length + 1 + 1 := by
    intro offset hmem
    have htwo : offset ∈ [1, 0] := hmem
    simp only [List.mem_cons, List.not_mem_nil, or_false] at htwo
    omega
  have hnone : ∀ (i : Instr) (n : Nat), i.offsets = [] → ∀ offset ∈ i.offsets, offset < n := by
    intro i n hi offset hmem
    rw [hi] at hmem
    cases hmem
  rw [filter, filterHead, List.cons_append, List.cons_append, List.cons_append, List.cons_append,
    List.nil_append]
  simp only [jumpsInside_cons, List.length_cons]
  exact ⟨hnone _ _ rfl, hskip, hnone _ _ rfl, hnone _ _ rfl, jumpsInside_filterTail allowlist⟩

theorem known_filter (allowlist : List Int) : ∀ i ∈ filter allowlist, i.code ∈ codes := by
  intro i hi
  rw [filter, filterTail, List.mem_append, List.mem_append, List.mem_flatMap] at hi
  rcases hi with hhead | ⟨syscallNumber, _, hentry⟩ | hlast
  · simp only [filterHead, List.mem_cons, List.not_mem_nil, or_false] at hhead
    rcases hhead with rfl | rfl | rfl | rfl <;> decide
  · simp only [filterEntry, List.mem_cons, List.not_mem_nil, or_false] at hentry
    rcases hentry with rfl | rfl
    · exact (by decide : jumpEq ∈ codes)
    · exact (by decide : retK ∈ codes)
  · rw [List.mem_singleton.mp hlast]
    decide

theorem accepted_filter {allowlist : List Int} (h : 2 * allowlist.length + 5 ≤ maxInstructions) :
    Accepted (filter allowlist) where
  nonempty := List.cons_ne_nil _ _
  short := by
    rw [length_filter]
    exact h
  known := known_filter allowlist
  inside := jumpsInside_filter allowlist
  returns := by
    refine ⟨stmt retK (retErrno ||| eperm), ?_, Or.inl rfl⟩
    rw [filter, filterTail, ← List.append_assoc, List.getLast?_concat]

/-- Every other instruction behind the head is a comparison. -/
theorem filter_at {allowlist : List Int} {n : Nat} (h : n < allowlist.length) :
    ∃ k, (filter allowlist)[4 + 2 * n]? = some (jump jumpEq k 0 1) := by
  have htail : (filter allowlist)[4 + 2 * n]? = (filterTail allowlist)[2 * n]? := by
    rw [filter, List.getElem?_append_right (Nat.le_add_right 4 _)]
    exact congrArg _ (Nat.add_sub_cancel_left 4 (2 * n))
  rw [htail]
  clear htail
  induction allowlist generalizing n with
  | nil => exact absurd h (Nat.not_lt_zero n)
  | cons syscallNumber allowlist ih =>
    cases n with
    | zero => exact ⟨_, rfl⟩
    | succ n =>
      obtain ⟨k, hk⟩ := ih (Nat.lt_of_succ_lt_succ h)
      exact ⟨k, hk⟩

/-- A part of the program with an odd number of instructions does not end in a return, or
jumps out of itself. -/
theorem not_accepted_take {allowlist : List Int} {m : Nat} (hodd : m % 2 = 1)
    (hm : m < (filter allowlist).length) : ¬ Accepted ((filter allowlist).take m) := by
  intro haccepted
  rw [length_filter] at hm
  have hlast : ∀ i, (filter allowlist)[m - 1]? = some i → i.code = retK ∨ i.code = retA := by
    intro i hi
    obtain ⟨j, hj, hret⟩ := haccepted.returns
    rw [List.getLast?_take, if_neg (by omega), hi, Option.some_or] at hj
    cases hj
    exact hret
  rcases (by omega : m = 1 ∨ m = 3 ∨ 5 ≤ m) with rfl | rfl | hfive
  · exact absurd (hlast _ rfl) (by decide)
  · have hjump := haccepted.inside 1 (jump jumpEq auditArchX86_64 1 0) rfl 1 (by decide)
    rw [List.length_take] at hjump
    omega
  · obtain ⟨k, hk⟩ := @filter_at allowlist ((m - 5) / 2) (by omega)
    rw [show 4 + 2 * ((m - 5) / 2) = m - 1 by omega] at hk
    have hcode : jumpEq = retK ∨ jumpEq = retA := hlast _ hk
    exact absurd hcode (by decide)

theorem not_accepted_installed {allowlist : List Int}
    (h : maxInstructions < 2 * allowlist.length + 5) : ¬ Accepted (installed allowlist) := by
  intro haccepted
  have hlength := length_filter allowlist
  have hshort := haccepted.short
  unfold maxInstructions at h hshort
  rw [installed, List.length_take] at hshort
  exact not_accepted_take (by omega) (by omega) haccepted

/-- A program within the limit is accepted, no jump leaves it, and it returns what the
allowlist says for every call; a longer one is refused. -/
theorem filter_means (allowlist : List Int) :
    (2 * allowlist.length + 5 ≤ maxInstructions →
      (installed allowlist).length = 2 * allowlist.length + 5 ∧
        Accepted (installed allowlist) ∧ JumpsInside (installed allowlist) ∧
        ∀ data : SeccompData,
          exec (installed allowlist) data.word =
            .returned (if data.arch ≠ auditArchX86_64 then retKillProcess
              else if ∃ syscallNumber ∈ allowlist, BitVec.ofInt 32 syscallNumber = data.nr then
                retAllow
              else retErrno ||| eperm)) ∧
      (maxInstructions < 2 * allowlist.length + 5 → ¬ Accepted (installed allowlist)) := by
  refine ⟨?_, not_accepted_installed⟩
  intro h
  rw [installed_eq h]
  exact ⟨length_filter allowlist, accepted_filter h, jumpsInside_filter allowlist,
    exec_filter allowlist⟩

/-- The list of a package run fits. -/
example : 2 * defaultPackageSyscalls.length + 5 ≤ maxInstructions := by decide +kernel

end ExeCell.Sandbox
