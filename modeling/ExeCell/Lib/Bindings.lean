import Mathlib.Logic.Function.Basic

/-!
# Tables of bindings

A table binds keys to values. An operation binds a key, copies what one key is bound to to
another one, or unbinds keys; everything else about the table stays.

* `apply_of_not_sets`, `apply_congr`: an operation leaves the keys alone that it does not
  set, and what it sets depends on its source only.
* `CurrentAfter`: when several holders keep a copy of one table, and each makes its
  operations on its own copy only, a copy is as good as the table for the keys that no other
  holder has set since (`apply_current`, `kept_current`).
-/

namespace Bindings

inductive Op (κ ν : Type) where
  | bind (key : κ) (value : ν)
  | copy (source target : κ)
  | unbind (key : κ)
  | clear (keys : κ → Bool)
  | keep

variable {κ ν : Type}

/-- The operation sets what the key is bound to. -/
def Op.Sets : Op κ ν → κ → Prop
  | .bind target _, key => key = target
  | .copy _ target, key => key = target
  | .unbind target, key => key = target
  | .clear keys, key => keys key = true
  | .keep, _ => False

/-- The key whose binding the operation looks at. -/
def Op.source : Op κ ν → Option κ
  | .copy source _ => some source
  | _ => none

variable [DecidableEq κ]

def Op.apply (op : Op κ ν) (table : κ → Option ν) : κ → Option ν :=
  match op with
  | .bind key value => Function.update table key (some value)
  | .copy source target => Function.update table target (table source)
  | .unbind key => Function.update table key none
  | .clear keys => fun key => if keys key then none else table key
  | .keep => table

section Apply

variable {op : Op κ ν} {table table' : κ → Option ν} {key : κ}

theorem apply_of_not_sets (h : ¬op.Sets key) : op.apply table key = table key := by
  cases op with
  | bind target value => exact Function.update_of_ne h _ _
  | copy source target => exact Function.update_of_ne h _ _
  | unbind target => exact Function.update_of_ne h _ _
  | clear keys => exact if_neg h
  | keep => rfl

/-- What an operation sets depends on nothing but what its source is bound to. -/
theorem apply_congr (hsets : op.Sets key)
    (hsource : ∀ source, op.source = some source → table source = table' source) :
    op.apply table key = op.apply table' key := by
  cases op with
  | bind target value =>
    obtain rfl := hsets
    dsimp only [Op.apply]
    rw [Function.update_self, Function.update_self]
  | copy source target =>
    obtain rfl := hsets
    dsimp only [Op.apply]
    rw [Function.update_self, Function.update_self]
    exact hsource source rfl
  | unbind target =>
    obtain rfl := hsets
    dsimp only [Op.apply]
    rw [Function.update_self, Function.update_self]
  | clear keys =>
    have hkey : keys key = true := hsets
    dsimp only [Op.apply]
    rw [if_pos hkey, if_pos hkey]
  | keep => cases hsets

end Apply

/-! ## Copies of one table -/

section Copies

variable {π : Type} {current : π → κ → Prop} {holder other : π} {op : Op κ ν}
  {copied shared : κ → Option ν} {key : κ}

/-- Which copies are current after an operation of one holder: what it sets is current for no
one else, and for itself when its source was. -/
def CurrentAfter (current : π → κ → Prop) (holder : π) (op : Op κ ν) (other : π) (key : κ) : Prop :=
  (op.Sets key → other = holder ∧ ∀ source, op.source = some source → current holder source) ∧
    (¬op.Sets key → current other key)

/-- The copy of the holder that makes the operation. -/
theorem apply_current (hcopy : ∀ key, current holder key → copied key = shared key)
    (h : CurrentAfter current holder op holder key) :
    op.apply copied key = op.apply shared key := by
  by_cases hsets : op.Sets key
  · obtain ⟨-, hsource⟩ := h.1 hsets
    exact apply_congr hsets fun source heq => hcopy source (hsource source heq)
  · rw [apply_of_not_sets hsets, apply_of_not_sets hsets]
    exact hcopy key (h.2 hsets)

/-- The copy of another one. -/
theorem kept_current (hne : other ≠ holder)
    (hcopy : ∀ key, current other key → copied key = shared key)
    (h : CurrentAfter current holder op other key) : copied key = op.apply shared key := by
  by_cases hsets : op.Sets key
  · exact absurd (h.1 hsets).1 hne
  · rw [apply_of_not_sets hsets]
    exact hcopy key (h.2 hsets)

end Copies

end Bindings
