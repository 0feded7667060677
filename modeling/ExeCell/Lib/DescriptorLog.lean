import Mathlib.Data.List.Basic
import Mathlib.Data.List.Count

/-!
# Logs of descriptor operations

What one holder of several descriptors does with them, in order. A descriptor is used
properly when it is read some number of times, closed once, and not touched again:
afterwards its number may belong to somebody else. `closedOnce_iff` reduces this to the
operations on the one descriptor, `opsOn`, which distribute over concatenation.
-/

namespace DescriptorLog

variable {δ : Type}

inductive Op (δ : Type) where
  | read (fd : δ)
  | close (fd : δ)
  deriving DecidableEq, Repr

def Op.fd : Op δ → δ
  | .read fd => fd
  | .close fd => fd

variable [DecidableEq δ]

/-- The descriptor is closed exactly once, and neither read nor closed after that. -/
def ClosedOnce (log : List (Op δ)) (fd : δ) : Prop :=
  log.count (.close fd) = 1 ∧
    ∀ before after, log = before ++ .close fd :: after → ∀ op ∈ after, op.fd ≠ fd

/-- The operations on one descriptor. -/
def opsOn (fd : δ) (log : List (Op δ)) : List (Op δ) := log.filter fun op => op.fd = fd

@[simp] theorem opsOn_append (fd : δ) (log log' : List (Op δ)) :
    opsOn fd (log ++ log') = opsOn fd log ++ opsOn fd log' :=
  List.filter_append log log'

@[simp] theorem opsOn_cons_self (op : Op δ) (log : List (Op δ)) :
    opsOn op.fd (op :: log) = op :: opsOn op.fd log := by
  simp [opsOn]

theorem mem_opsOn {fd : δ} {op : Op δ} {log : List (Op δ)} :
    op ∈ opsOn fd log ↔ op ∈ log ∧ op.fd = fd := by
  simp [opsOn]

theorem opsOn_eq_nil {fd : δ} {log : List (Op δ)} :
    opsOn fd log = [] ↔ ∀ op ∈ log, op.fd ≠ fd := by
  simp [opsOn, List.filter_eq_nil_iff]

theorem count_close_opsOn (fd : δ) (log : List (Op δ)) :
    (opsOn fd log).count (.close fd) = log.count (.close fd) :=
  List.count_filter (by simp [Op.fd])

/-- Operations on `fd` without a close are reads. -/
theorem opsOn_eq_replicate {fd : δ} {log : List (Op δ)} (h : .close fd ∉ log) :
    opsOn fd log = List.replicate (opsOn fd log).length (.read fd) := by
  apply List.eq_replicate_of_mem
  intro op hop
  obtain ⟨hmem, hfd⟩ := mem_opsOn.mp hop
  cases op with
  | read other =>
    obtain rfl : other = fd := hfd
    rfl
  | close other =>
    obtain rfl : other = fd := hfd
    exact absurd hmem h

theorem closedOnce_iff {log : List (Op δ)} {fd : δ} :
    ClosedOnce log fd ↔ ∃ n, opsOn fd log = List.replicate n (.read fd) ++ [.close fd] := by
  constructor
  · rintro ⟨hcount, hafter⟩
    have hmem : .close fd ∈ log := List.one_le_count_iff.mp (by omega)
    obtain ⟨before, after, rfl⟩ := List.append_of_mem hmem
    have hquiet : opsOn fd after = [] := opsOn_eq_nil.mpr (hafter before after rfl)
    have hbefore : .close fd ∉ before := by
      rw [List.count_append, List.count_cons_self] at hcount
      exact List.count_eq_zero.mp (by omega)
    refine ⟨(opsOn fd before).length, ?_⟩
    rw [opsOn_append, ← opsOn_eq_replicate hbefore]
    have hclose : opsOn fd (.close fd :: after) = .close fd :: opsOn fd after :=
      opsOn_cons_self (.close fd) after
    rw [hclose, hquiet]
  · rintro ⟨n, hops⟩
    have hcount : log.count (.close fd) = 1 := by
      rw [← count_close_opsOn, hops]
      simp [List.count_replicate]
    refine ⟨hcount, ?_⟩
    rintro before after rfl
    apply opsOn_eq_nil.mp
    by_contra hne
    have hclose : opsOn fd (.close fd :: after) = .close fd :: opsOn fd after :=
      opsOn_cons_self (.close fd) after
    rw [opsOn_append, hclose] at hops
    -- the last operation on `fd` is the close, so it would be closed again in `after`
    have hlast : (opsOn fd after).getLast? = some (.close fd) := by
      have h := congrArg List.getLast? hops
      rw [List.getLast?_append_of_ne_nil _ (by simp), List.getLast?_cons_of_ne_nil hne,
        List.getLast?_concat] at h
      exact h
    have hmem : .close fd ∈ after := (mem_opsOn.mp (List.mem_of_getLast? hlast)).1
    have hpos := List.one_le_count_iff.mpr hmem
    rw [List.count_append, List.count_cons_self] at hcount
    omega

/-- The descriptor is used after it has been closed. -/
def UsedAfterClose (log : List (Op δ)) (fd : δ) : Prop :=
  ∃ before op after, opsOn fd log = before ++ .close fd :: op :: after

theorem UsedAfterClose.append {log : List (Op δ)} {fd : δ} (h : UsedAfterClose log fd)
    (log' : List (Op δ)) : UsedAfterClose (log ++ log') fd := by
  obtain ⟨before, op, after, hops⟩ := h
  refine ⟨before, op, after ++ opsOn fd log', ?_⟩
  rw [opsOn_append, hops]
  simp

theorem UsedAfterClose.not_closedOnce {log : List (Op δ)} {fd : δ}
    (h : UsedAfterClose log fd) : ¬ ClosedOnce log fd := by
  intro hclosed
  obtain ⟨before, op, after, hops⟩ := h
  obtain ⟨n, hn⟩ := closedOnce_iff.mp hclosed
  rw [hops] at hn
  rcases List.append_eq_append_iff.mp hn with ⟨reads, hreads, htail⟩ | ⟨reads, hreads, htail⟩
  · -- the close would have to be one of the reads, or the last operation
    cases reads with
    | nil => simp at htail
    | cons r rs =>
      have hr : .close fd = r := (List.cons.inj htail).1
      have hmem : r ∈ List.replicate n (.read fd) := hreads ▸ by simp
      rw [List.eq_of_mem_replicate hmem] at hr
      cases hr
  · cases reads with
    | nil => simp at htail
    | cons r rs =>
      have hlength := congrArg List.length htail
      simp at hlength

end DescriptorLog
