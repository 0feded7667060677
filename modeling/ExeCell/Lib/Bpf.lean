import Mathlib.Data.List.Basic
import Mathlib.Data.BitVec

/-!
# Classic BPF

Programs for the accumulator machine of the kernel, without the index register and the
scratch memory. Instructions are kept as they are encoded. A jump is relative to the
instruction behind it and goes forward only, so that a program of `n` instructions takes
at most `n` steps.

* `Bpf.exec` runs a program; it ends in a return or in a fault.
* `Bpf.Accepted` is what the kernel checks before it takes a program.
* `Bpf.run_ret`, `Bpf.run_load` and `Bpf.run_jumpEq` execute one instruction.
-/

namespace Bpf

abbrev Word := BitVec 32

/-- An instruction, `sock_filter`. -/
structure Instr where
  code : BitVec 16
  jt : BitVec 8
  jf : BitVec 8
  k : Word
  deriving DecidableEq, Repr

/-- `BPF_STMT`. -/
def stmt (code : BitVec 16) (k : Word) : Instr := ⟨code, 0, 0, k⟩

/-- `BPF_JUMP`. -/
def jump (code : BitVec 16) (k : Word) (jt jf : BitVec 8) : Instr := ⟨code, jt, jf, k⟩

/-! The codes. -/

/-- `BPF_LD | BPF_IMM`. -/
def ldImm : BitVec 16 := 0x00
/-- `BPF_LD | BPF_W | BPF_ABS`. -/
def ldAbs : BitVec 16 := 0x20
/-- `BPF_JMP | BPF_JA`. -/
def jumpAlways : BitVec 16 := 0x05
/-- `BPF_JMP | BPF_JEQ | BPF_K`. -/
def jumpEq : BitVec 16 := 0x15
/-- `BPF_JMP | BPF_JGT | BPF_K`. -/
def jumpGt : BitVec 16 := 0x25
/-- `BPF_JMP | BPF_JGE | BPF_K`. -/
def jumpGe : BitVec 16 := 0x35
/-- `BPF_JMP | BPF_JSET | BPF_K`. -/
def jumpSet : BitVec 16 := 0x45
/-- `BPF_RET | BPF_K`. -/
def retK : BitVec 16 := 0x06
/-- `BPF_RET | BPF_A`. -/
def retA : BitVec 16 := 0x16

/-- A machine that runs, has returned, or has left its program or its data. -/
inductive Status where
  | running (pc : Nat) (acc : Word)
  | returned (value : Word)
  | fault
  deriving DecidableEq, Repr

/-- How far a conditional jump goes; `none` for every other instruction. -/
def Instr.branch (i : Instr) (acc : Word) : Option (BitVec 8) :=
  if i.code = jumpEq then some (if acc = i.k then i.jt else i.jf)
  else if i.code = jumpGt then some (if i.k < acc then i.jt else i.jf)
  else if i.code = jumpGe then some (if i.k ≤ acc then i.jt else i.jf)
  else if i.code = jumpSet then some (if acc &&& i.k ≠ 0 then i.jt else i.jf)
  else none

/-- One instruction at `pc`. The data is given by its 32-bit words. -/
def Instr.exec (i : Instr) (load : Word → Option Word) (pc : Nat) (acc : Word) : Status :=
  match i.branch acc with
  | some offset => .running (pc + 1 + offset.toNat) acc
  | none =>
    if i.code = retK then .returned i.k
    else if i.code = retA then .returned acc
    else if i.code = ldImm then .running (pc + 1) i.k
    else if i.code = ldAbs then
      match load i.k with
      | none => .fault
      | some word => .running (pc + 1) word
    else if i.code = jumpAlways then .running (pc + 1 + i.k.toNat) acc
    else .fault

def step (program : List Instr) (load : Word → Option Word) : Status → Status
  | .running pc acc =>
    match program[pc]? with
    | none => .fault
    | some i => i.exec load pc acc
  | status => status

/-- The status after so many steps. -/
def run (program : List Instr) (load : Word → Option Word) : Nat → Status → Status
  | 0, status => status
  | steps + 1, status => run program load steps (step program load status)

/-- A whole run: no more steps than there are instructions. -/
def exec (program : List Instr) (load : Word → Option Word) : Status :=
  run program load program.length (.running 0 0)

/-! ## What the kernel accepts -/

/-- `BPF_MAXINSNS`. -/
def maxInstructions : Nat := 4096

/-- The distances that the instruction may jump. -/
def Instr.offsets (i : Instr) : List Nat :=
  if i.code = jumpAlways then [i.k.toNat]
  else if i.code = jumpEq ∨ i.code = jumpGt ∨ i.code = jumpGe ∨ i.code = jumpSet then
    [i.jt.toNat, i.jf.toNat]
  else []

/-- No jump leaves the program. -/
def JumpsInside (program : List Instr) : Prop :=
  ∀ pc i, program[pc]? = some i → ∀ offset ∈ i.offsets, pc + 1 + offset < program.length

/-- The codes of the instructions there are. -/
def codes : List (BitVec 16) :=
  [ldImm, ldAbs, jumpAlways, jumpEq, jumpGt, jumpGe, jumpSet, retK, retA]

/-- The program is neither empty nor too long, its codes are known, no jump leaves it, and
it ends with a return. -/
structure Accepted (program : List Instr) : Prop where
  nonempty : program ≠ []
  short : program.length ≤ maxInstructions
  known : ∀ i ∈ program, i.code ∈ codes
  inside : JumpsInside program
  returns : ∃ i, program.getLast? = some i ∧ (i.code = retK ∨ i.code = retA)

theorem jumpsInside_nil : JumpsInside [] := by
  intro pc i h
  cases h

theorem jumpsInside_cons {i : Instr} {program : List Instr} :
    JumpsInside (i :: program) ↔
      (∀ offset ∈ i.offsets, offset < program.length) ∧ JumpsInside program := by
  constructor
  · intro h
    constructor
    · intro offset hmem
      have hfirst := h 0 i rfl offset hmem
      rw [List.length_cons] at hfirst
      omega
    · intro pc j hj offset hmem
      have hlater := h (pc + 1) j hj offset hmem
      rw [List.length_cons] at hlater
      omega
  · rintro ⟨hfirst, hlater⟩ pc j hj offset hmem
    rw [List.length_cons]
    cases pc with
    | zero =>
      cases hj
      have hlt := hfirst offset hmem
      omega
    | succ pc =>
      have hlt := hlater pc j hj offset hmem
      omega

/-! ## Executing an instruction -/

section Run

variable {program : List Instr} {load : Word → Option Word} {pc steps : Nat} {acc : Word}

/-- The code at an address, read off what is left of the program there. -/
theorem fetch_of_drop {code : List Instr} (h : program.drop pc = code) (n : Nat) :
    program[pc + n]? = code[n]? := by
  rw [← h, List.getElem?_drop]

theorem run_returned (value : Word) : run program load steps (.returned value) = .returned value := by
  induction steps with
  | zero => rfl
  | succ steps ih => exact ih

theorem run_running {i : Instr} (h : program[pc]? = some i) :
    run program load (steps + 1) (.running pc acc) = run program load steps (i.exec load pc acc) := by
  rw [run, step]
  simp only [h]

theorem run_ret {value : Word} (h : program[pc]? = some (stmt retK value)) :
    run program load (steps + 1) (.running pc acc) = .returned value :=
  (run_running h).trans (run_returned value)

theorem run_load {offset word : Word} (h : program[pc]? = some (stmt ldAbs offset))
    (hload : load offset = some word) :
    run program load (steps + 1) (.running pc acc) = run program load steps (.running (pc + 1) word) := by
  have hexec : (stmt ldAbs offset).exec load pc acc =
      match load offset with
      | none => .fault
      | some word => .running (pc + 1) word := rfl
  rw [run_running h, hexec, hload]

theorem run_jumpEq {k : Word} {jt jf : BitVec 8} (h : program[pc]? = some (jump jumpEq k jt jf)) :
    run program load (steps + 1) (.running pc acc) =
      run program load steps
        (.running (pc + 1 + (if acc = k then jt else jf).toNat) acc) :=
  run_running h

end Run

end Bpf
