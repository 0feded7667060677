import ExeCell.Trace.Reuse

/-!
# `close_range` and its flags

The third argument of `close_range` says what becomes of the descriptors: with
`CLOSE_RANGE_CLOEXEC` they stay open and are only marked. The decoder reads the first two
arguments, so it lets go of the descriptors either way, and the table differs from the
kernel's exactly when a marked descriptor was in it (`followsRange_iff`).
-/

namespace ExeCell.Trace

/-- `CLOSE_RANGE_CLOEXEC`. -/
def closeRangeCloexec : Nat := 4

namespace Call

/-- The third argument of `close_range`. -/
def rangeFlags (call : Call) : Nat := toUInt32 call.entry.registers.rdx

/-- The descriptors of the range are marked and stay open. -/
def marksRange (call : Call) : Prop := call.rangeFlags &&& closeRangeCloexec ≠ 0

instance (call : Call) : Decidable call.marksRange := inferInstanceAs (Decidable (_ ≠ _))

instance (call : Call) (fd : Int) : Decidable (call.InRange fd) :=
  inferInstanceAs (Decidable (_ ∧ _))

end Call

/-- What Linux does for a successful `close_range`, descriptor by descriptor. -/
def rangeServed (call : Call) (kernel : KernelTable) : KernelTable := fun fd =>
  if call.InRange fd then
    if call.marksRange then (kernel fd).map fun found => { found with closeOnExec := true }
    else none
  else kernel fd

/-- After a successful `close_range` from `first` to `last` the table lacks the descriptors
between these when the call closes them, and is as before when it marks them. -/
structure FollowsRange (pid : Pid) (call : Call) (table : FdTable) (first last : Nat) :
    Prop where
  closes : ¬call.marksRange → ∀ fd, (call.complete pid table).1.lookup fd =
    if first ≤ toUInt32 fd ∧ toUInt32 fd ≤ last then none else table.lookup fd
  marks : call.marksRange → (call.complete pid table).1.lookup = table.lookup

section

variable {pid : Pid} {call : Call} {table : FdTable} {first last : Nat}

/-- The first argument is kept as an `int` and compared as the unsigned number it was. -/
theorem toUInt32_toInt32 (value : Int) : toUInt32 (toInt32 value) = toUInt32 value := by
  unfold toUInt32 toInt32
  have hmod : value.bmod (2 ^ 32) % ((2 ^ 32 : Nat) : Int) = value % ((2 ^ 32 : Nat) : Int) :=
    Int.bmod_emod
  exact congrArg Int.toNat hmod

theorem lookup_complete_closeRange (hnumber : call.number = Sys.closeRange)
    (hresult : call.result = 0) (fd : Int) :
    (call.complete pid table).1.lookup fd =
      if toUInt32 call.entry.registers.rdi ≤ toUInt32 fd ∧
        toUInt32 fd ≤ toUInt32 call.entry.registers.rsi then none else table.lookup fd := by
  rw [complete_closeRange hnumber hresult, FdTable.lookup_closeRange, Call.fd, toUInt32_toInt32]

theorem followsRange_iff (hnumber : call.number = Sys.closeRange) (hresult : call.result = 0)
    (hfirst : toUInt32 call.entry.registers.rdi = first)
    (hlast : toUInt32 call.entry.registers.rsi = last) :
    FollowsRange pid call table first last ↔
      (call.marksRange → ∀ fd, first ≤ toUInt32 fd → toUInt32 fd ≤ last →
        table.lookup fd = none) := by
  subst hfirst hlast
  constructor
  · intro h hmarks fd hfirst hlast
    have hkept := congrFun (h.marks hmarks) fd
    rw [lookup_complete_closeRange hnumber hresult, if_pos ⟨hfirst, hlast⟩] at hkept
    exact hkept.symm
  · intro h
    refine ⟨fun _ fd => lookup_complete_closeRange hnumber hresult fd, ?_⟩
    intro hmarks
    funext fd
    rw [lookup_complete_closeRange hnumber hresult]
    split
    · rename_i hin
      exact (h hmarks fd hin.1 hin.2).symm
    · rfl

/-- The call that marks descriptors is within what `Linux` allows a `close_range`. -/
theorem rangeServed_allowed (call : Call) (kernel : KernelTable) :
    (∀ fd, call.InRange fd → rangeServed call kernel fd = none ∨
      rangeServed call kernel fd =
        (kernel fd).map fun found => { found with closeOnExec := true }) ∧
    ∀ fd, ¬call.InRange fd → rangeServed call kernel fd = kernel fd := by
  unfold rangeServed
  constructor
  · intro fd hin
    rw [if_pos hin]
    by_cases hmarks : call.marksRange
    · exact .inr (if_pos hmarks)
    · exact .inl (if_neg hmarks)
  · exact fun fd hout => if_neg hout

/-- A marked descriptor still refers to its file, and the table has nothing of it. -/
theorem marked_lost {kernel : KernelTable} {fd : Int} {path : Text}
    (hnumber : call.number = Sys.closeRange) (hresult : call.result = 0)
    (hmarks : call.marksRange) (hin : call.InRange fd) (hrefers : kernel.Refers fd path) :
    (rangeServed call kernel).Refers fd path ∧ (call.complete pid table).1.lookup fd = none := by
  constructor
  · unfold KernelTable.Refers KernelTable.object rangeServed at *
    rw [if_pos hin, if_pos hmarks, Option.map_map]
    exact hrefers
  · rw [complete_closeRange hnumber hresult, FdTable.lookup_closeRange]
    exact if_pos hin

/-- `close_range` from 3 on. -/
def closeRangeCall (flags : Nat) : Call where
  entry := {
    registers := { origRax := 436, rdi := 3, rsi := 2 ^ 32 - 1, rdx := flags }
    memory := pathMemory }
  exit := { registers := { origRax := 436, rax := 0 }, memory := pathMemory }

/-- The file at 3 is marked, and the table loses it. -/
theorem not_followsRange_cloexec :
    ¬FollowsRange 7 (closeRangeCall 4) (FdTable.track {} 3 "/f".toList) 3 (2 ^ 32 - 1) := by
  intro h
  have hkept := congrFun (h.marks (by decide)) 3
  exact absurd hkept (by decide +kernel)

/-- The same call closes 3 when it has no flags. -/
theorem followsRange_closes :
    FollowsRange 7 (closeRangeCall 0) (FdTable.track {} 3 "/f".toList) 3 (2 ^ 32 - 1) := by
  refine (followsRange_iff (by decide) (by decide) (by decide) (by decide)).mpr ?_
  intro hmarks
  exact absurd hmarks (by decide)

end

end ExeCell.Trace
