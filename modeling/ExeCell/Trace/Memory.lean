import ExeCell.Core.Text

/-!
# Reading the memory of a tracee

A word read with `PTRACE_PEEKDATA` succeeds when its eight bytes are all mapped.
`read_process_memory_string` reads words until it meets a NUL byte, an unreadable
word, or the limit of 4096 bytes.
-/

namespace ExeCell.Trace

/-- The mapped bytes of a tracee. -/
abbrev Memory := Nat → Option Char

/-- The address of a byte, modulo the 64-bit address space. -/
def wrapAddress (address : Nat) : Nat := address % 2 ^ 64

/-- `sizeof(long)`. -/
def wordSize : Nat := 8

/-- `PTRACE_PEEKDATA`: the eight bytes at an address. -/
def peekData (memory : Memory) (address : Nat) : Option (List Char) :=
  (List.range wordSize).mapM fun index => memory (wrapAddress (address + index))

inductive MemoryReadStatus where
  | complete
  | truncated
  | invalidAddress
  deriving DecidableEq, Repr

structure MemoryRead where
  value : Text := []
  status : MemoryReadStatus := .complete
  bytes : Nat := 0
  deriving DecidableEq, Repr

def maxStringSize : Nat := 4096

/-- The loop over the bytes of one word: either the function returns, or it goes on
with the bytes collected so far. -/
def scanWord (value : Text) : List Char → MemoryRead ⊕ Text
  | [] => .inr value
  | byte :: rest =>
    if byte = '\x00' then
      .inl { value := value, status := .complete, bytes := value.length }
    else
      let value := value ++ [byte]
      if value.length ≥ maxStringSize then
        .inl { value := value, status := .truncated, bytes := value.length }
      else scanWord value rest

/-- The outer loop of `read_process_memory_string`; every round reads one word. -/
def readWords (memory : Memory) (address : Nat) : Nat → Text → MemoryRead
  | 0, value => { value := value, status := .truncated, bytes := value.length }
  | rounds + 1, value =>
    if value.length < maxStringSize then
      match peekData memory (address + value.length) with
      | none => { value := value, status := .invalidAddress, bytes := value.length }
      | some word =>
        match scanWord value word with
        | .inl result => result
        | .inr value => readWords memory address rounds value
    else { value := value, status := .truncated, bytes := value.length }

/-- `read_process_memory_string`: every round adds a whole word, so 512 of them reach
the limit. -/
def readProcessMemoryString (memory : Memory) (address : Nat) : MemoryRead :=
  readWords memory address (maxStringSize / wordSize) []

/-- `read_process_string_value`, which is `read_process_string` of the decoder. -/
def readProcessString (memory : Memory) (address : Nat) : Text :=
  (readProcessMemoryString memory address).value

end ExeCell.Trace
