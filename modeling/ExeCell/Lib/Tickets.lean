import Mathlib.Data.List.Basic
import Mathlib.Data.List.Count

/-!
# Tickets from a shared counter

Workers draw numbers from one counter. A worker holds at most one number at a time and
either uses it, when it is below a limit, or drops it. `Pool.Sound` says that every number
below the limit that has been drawn is held by one worker or has been used once, and that
no other number is held or used; every operation keeps it. When no worker holds a number
any more, every number drawn has been used exactly once (`Pool.Sound.count_used`).
-/

namespace Tickets

structure Pool where
  next : Nat := 0
  /-- What each worker holds. -/
  held : List (Option Nat) := []
  used : List Nat := []

/-- The pool with something else in the hands of one worker. -/
def Pool.give (p : Pool) (worker : Nat) (ticket : Option Nat) : Pool :=
  { p with held := p.held.set worker ticket }

structure Pool.Sound (limit : Nat) (p : Pool) : Prop where
  once : ∀ i < limit, p.used.count i + p.held.count (some i) = if i < p.next then 1 else 0
  drawn : ∀ i, some i ∈ p.held → i < p.next
  within : ∀ i ∈ p.used, i < limit

theorem count_set_add {α : Type} [BEq α] [LawfulBEq α] [DecidableEq α] {l : List α} {k : Nat} {x y : α}
    (h : l[k]? = some y) (a : α) :
    (l.set k x).count a + (if y = a then 1 else 0) = l.count a + (if x = a then 1 else 0) := by
  obtain ⟨hk, hy⟩ := List.getElem?_eq_some_iff.mp h
  rw [List.count_set hk, hy]
  have hpos : y = a → 1 ≤ l.count a := by
    rintro rfl
    exact List.one_le_count_iff.mpr (hy ▸ List.getElem_mem hk)
  simp only [beq_iff_eq]
  split <;> split <;> simp_all

namespace Pool.Sound

variable {limit : Nat} {p : Pool} {worker i : Nat}

theorem empty (limit : Nat) : Pool.Sound limit {} where
  once := by simp
  drawn := by simp
  within := by simp

/-- A new worker holds nothing. -/
theorem join (hp : p.Sound limit) : Pool.Sound limit { p with held := p.held ++ [none] } where
  once := by
    intro i hi
    have h := hp.once i hi
    rw [List.count_append]
    simpa using h
  drawn := by
    intro i hi
    exact hp.drawn i (by simpa using hi)
  within := hp.within

/-- A worker keeps what it holds. -/
theorem keep (hp : p.Sound limit) {ticket : Option Nat} (h : p.held[worker]? = some ticket) :
    (p.give worker ticket).Sound limit := by
  obtain ⟨hk, hticket⟩ := List.getElem?_eq_some_iff.mp h
  have hsame : p.held.set worker ticket = p.held := by
    rw [← hticket]
    exact List.set_getElem_self hk
  rw [Pool.give, hsame]
  exact hp

/-- A worker with empty hands draws the next number. -/
theorem draw (hp : p.Sound limit) (h : p.held[worker]? = some none) :
    Pool.Sound limit { p.give worker (some p.next) with next := p.next + 1 } where
  once := by
    intro i hi
    have hcount := count_set_add (x := some p.next) h (some i)
    have honce := hp.once i hi
    simp only [reduceCtorEq, if_false, Option.some.injEq] at hcount
    show p.used.count i + (p.held.set worker (some p.next)).count (some i) =
      if i < p.next + 1 then 1 else 0
    by_cases hnext : p.next = i
    · rw [if_neg (by omega)] at honce
      rw [if_pos hnext] at hcount
      rw [if_pos (by omega)]
      omega
    · rw [if_neg hnext] at hcount
      split <;> split at honce <;> omega
  drawn := by
    intro i hi
    show i < p.next + 1
    rcases List.mem_or_eq_of_mem_set hi with hold | hnew
    · have := hp.drawn i hold
      omega
    · cases hnew
      omega
  within := hp.within

/-- A worker uses the number it holds. -/
theorem use (hp : p.Sound limit) (h : p.held[worker]? = some (some i)) (hi : i < limit) :
    Pool.Sound limit { p.give worker none with used := p.used ++ [i] } where
  once := by
    intro j hj
    have hcount := count_set_add (x := none) h (some j)
    have honce := hp.once j hj
    simp only [reduceCtorEq, if_false, Option.some.injEq] at hcount
    show (p.used ++ [i]).count j + (p.held.set worker none).count (some j) =
      if j < p.next then 1 else 0
    rw [List.count_append, List.count_singleton]
    by_cases hij : i = j
    · rw [if_pos hij] at hcount
      rw [if_pos (beq_iff_eq.mpr hij)]
      omega
    · rw [if_neg hij] at hcount
      rw [if_neg (by simpa using hij)]
      omega
  drawn := by
    intro j hj
    rcases List.mem_or_eq_of_mem_set hj with hold | hnew
    · exact hp.drawn j hold
    · cases hnew
  within := by
    intro j hj
    rcases List.mem_append.mp hj with hj | hj
    · exact hp.within j hj
    · rw [List.mem_singleton.mp hj]
      exact hi

/-- The order of the numbers used does not matter. -/
theorem perm (hp : p.Sound limit) {used : List Nat} (h : p.used.Perm used) :
    Pool.Sound limit { p with used := used } where
  once := by
    intro i hi
    show used.count i + p.held.count (some i) = if i < p.next then 1 else 0
    rw [← h.count_eq]
    exact hp.once i hi
  drawn := hp.drawn
  within := by
    intro i hi
    exact hp.within i (h.mem_iff.mpr hi)

/-- A worker drops a number that is not below the limit. -/
theorem drop (hp : p.Sound limit) (h : p.held[worker]? = some (some i)) (hi : limit ≤ i) :
    (p.give worker none).Sound limit where
  once := by
    intro j hj
    have hcount := count_set_add (x := none) h (some j)
    have honce := hp.once j hj
    have hij : i ≠ j := by omega
    simp only [reduceCtorEq, if_false, Option.some.injEq, if_neg hij] at hcount
    show p.used.count j + (p.held.set worker none).count (some j) = if j < p.next then 1 else 0
    omega
  drawn := by
    intro j hj
    rcases List.mem_or_eq_of_mem_set hj with hold | hnew
    · exact hp.drawn j hold
    · cases hnew
  within := hp.within

/-- No two workers hold the same number below the limit. -/
theorem eq_of_held (hp : p.Sound limit) (hi : i < limit) {other : Nat}
    (h : p.held[worker]? = some (some i)) (h' : p.held[other]? = some (some i)) :
    worker = other := by
  by_contra hne
  have hcount := count_set_add (x := none) h (some i)
  have hkept : (p.held.set worker none)[other]? = some (some i) := by
    rw [List.getElem?_set_ne hne]
    exact h'
  have hpos := List.one_le_count_iff.mpr (List.mem_of_getElem? hkept)
  have honce := hp.once i hi
  simp only [reduceCtorEq, if_false, if_true] at hcount
  split at honce <;> omega

/-- A number that is held has not been used. -/
theorem not_mem_used (hp : p.Sound limit) (hi : i < limit)
    (h : p.held[worker]? = some (some i)) : i ∉ p.used := by
  have hpos := List.one_le_count_iff.mpr (List.mem_of_getElem? h)
  have honce := hp.once i hi
  apply List.count_eq_zero.mp
  split at honce <;> omega

theorem count_used (hp : p.Sound limit) (hidle : ∀ ticket ∈ p.held, ticket = none) (hi : i < limit) :
    p.used.count i = if i < p.next then 1 else 0 := by
  have honce := hp.once i hi
  have hzero : p.held.count (some i) = 0 := by
    apply List.count_eq_zero.mpr
    intro hmem
    cases hidle _ hmem
  omega

end Pool.Sound

end Tickets
