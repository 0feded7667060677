import Mathlib.Algebra.BigOperators.Group.List.Basic
import ExeCell.Risk.Engine

/-!
# Sequences of calls

What `assess` answers after any calls of `add` and `reject`. The weights are added up in an
`int` before the sum is cut down to 100, so that the answer is what it should be as long as
the sum fits (`assess_sound_iff`).
-/

namespace ExeCell.Risk

/-- A call of the engine; a weight is any `int`. -/
inductive Call where
  | add (name : Text) (weight : Int32) (explanation : Text)
  | reject (name explanation : Text)
  deriving DecidableEq

def Call.isReject : Call → Bool
  | .add _ _ _ => false
  | .reject _ _ => true

/-- What a call adds to the score: the weight, unless it is negative. -/
def Call.weight : Call → Nat
  | .add _ weight _ => weight.toInt.toNat
  | .reject _ _ => 0

def Engine.call (engine : Engine) : Call → Engine
  | .add name weight explanation => engine.add name weight.toInt explanation
  | .reject name explanation => engine.reject name explanation

/-- The answer of `assess` after these calls. -/
def assessed (calls : List Call) : Assessment := (calls.foldl Engine.call {}).assess

/-- The sum of the weights, without any bound. -/
def totalWeight (calls : List Call) : Nat := (calls.map Call.weight).sum

/-! ## What is expected of the answers -/

/-- Both answers have the same factors and findings, in any order, and the same in all else. -/
structure SameButOrder (first second : Assessment) : Prop where
  score : first.score = second.score
  level : first.level = second.level
  action : first.action = second.action
  factors : first.factors.Perm second.factors
  findings : first.findings.Perm second.findings

/-- The second answer is in nothing lower than the first. -/
structure NotLower (first second : Assessment) : Prop where
  score : first.score ≤ second.score
  level : first.level.rank ≤ second.level.rank
  action : first.action.rank ≤ second.action.rank

/-- The answer after these calls is what it should be, for every order of the calls, and no
call on the way has lowered it. -/
structure Sound (calls : List Call) : Prop where
  score : (assessed calls).score = min 100 (totalWeight calls : Int)
  order : ∀ other, other.Perm calls → SameButOrder (assessed other) (assessed calls)
  action : (assessed calls).action = .reject ↔
    (∃ call ∈ calls, call.isReject = true) ∨ 50 ≤ (assessed calls).score
  growing : ∀ front call rest, calls = front ++ call :: rest →
    NotLower (assessed front) (assessed (front ++ [call]))

/-! ## The engine after the calls -/

/-- The factor that a call leaves. -/
def Call.factor : Call → Factor
  | .add name weight explanation => ⟨name, max 0 weight.toInt, explanation⟩
  | .reject name explanation => ⟨name, 0, explanation⟩

section Calls

variable {calls other front : List Call} {call : Call}

theorem Call.factor_weight (call : Call) : call.factor.weight = (call.weight : Int) := by
  cases call with
  | add name weight explanation =>
    show max 0 weight.toInt = (weight.toInt.toNat : Int)
    omega
  | reject name explanation => rfl

theorem Call.weight_lt (call : Call) : call.weight < 2 ^ 31 := by
  cases call with
  | add name weight explanation =>
    have hlt := weight.toInt_lt
    show weight.toInt.toNat < 2 ^ 31
    omega
  | reject name explanation =>
    show 0 < 2 ^ 31
    omega

theorem Engine.call_eq (engine : Engine) (call : Call) :
    engine.call call =
      { factors := engine.factors ++ [call.factor]
        directReject := engine.directReject || call.isReject } := by
  cases call with
  | add name weight explanation =>
    rw [Call.isReject, Bool.or_false]
    rfl
  | reject name explanation =>
    rw [Call.isReject, Bool.or_true]
    rfl

theorem calls_eq (engine : Engine) (calls : List Call) :
    calls.foldl Engine.call engine =
      { factors := engine.factors ++ calls.map Call.factor
        directReject := engine.directReject || calls.any Call.isReject } := by
  induction calls generalizing engine with
  | nil => simp
  | cons call calls ih =>
    rw [List.foldl_cons, ih, Engine.call_eq]
    simp [Bool.or_assoc]

theorem sum_factors (calls : List Call) :
    ((calls.map Call.factor).map Factor.weight).sum = (totalWeight calls : Int) := by
  induction calls with
  | nil => rfl
  | cons call calls ih =>
    rw [List.map_cons, List.map_cons, List.sum_cons, ih, Call.factor_weight, totalWeight,
      totalWeight, List.map_cons, List.sum_cons, Nat.cast_add]

/-- The answer: the sum in an `int`, and the thresholds unless a call has rejected. -/
theorem assessed_eq (calls : List Call) :
    assessed calls =
      let score := min (toInt32 (totalWeight calls)) 100
      let verdict := if calls.any Call.isReject then (.critical, .reject) else thresholds score
      { score := score
        level := verdict.1
        action := verdict.2
        factors := calls.map Call.factor
        findings := (calls.map Call.factor).map fun factor =>
          { id := factor.name, explanation := factor.explanation, weight := factor.weight } } := by
  rw [assessed, calls_eq, Engine.assess]
  dsimp only
  rw [List.nil_append, Bool.false_or, scoreOf_eq, sum_factors]

theorem score_assessed (calls : List Call) :
    (assessed calls).score = min (toInt32 (totalWeight calls)) 100 := by rw [assessed_eq]

theorem action_assessed (calls : List Call) :
    (assessed calls).action =
      if calls.any Call.isReject then .reject else (thresholds (assessed calls).score).2 := by
  rw [score_assessed, assessed_eq]
  dsimp only
  split <;> rfl

theorem level_assessed (calls : List Call) :
    (assessed calls).level =
      if calls.any Call.isReject then .critical else (thresholds (assessed calls).score).1 := by
  rw [score_assessed, assessed_eq]
  dsimp only
  split <;> rfl

theorem totalWeight_append (calls other : List Call) :
    totalWeight (calls ++ other) = totalWeight calls + totalWeight other := by
  rw [totalWeight, List.map_append, List.sum_append]
  rfl

theorem totalWeight_concat (calls : List Call) (call : Call) :
    totalWeight (calls ++ [call]) = totalWeight calls + call.weight := by
  rw [totalWeight_append]
  rfl

/-! ## Order, and the action -/

/-- The order of the calls is seen in the factors and the findings only. -/
theorem sameButOrder_of_perm (h : other.Perm calls) :
    SameButOrder (assessed other) (assessed calls) := by
  have htotal : totalWeight other = totalWeight calls := (h.map Call.weight).sum_eq
  have hreject : other.any Call.isReject = calls.any Call.isReject := h.any_eq
  have hfactors : (other.map Call.factor).Perm (calls.map Call.factor) := h.map _
  have hscore : (assessed other).score = (assessed calls).score := by
    rw [score_assessed, score_assessed, htotal]
  refine ⟨hscore, ?_, ?_, ?_, ?_⟩
  · rw [level_assessed, level_assessed, hreject, hscore]
  · rw [action_assessed, action_assessed, hreject, hscore]
  · rw [assessed_eq, assessed_eq]
    exact hfactors
  · rw [assessed_eq, assessed_eq]
    exact hfactors.map _

theorem thresholds_reject_iff {score : Int} : (thresholds score).2 = .reject ↔ 50 ≤ score := by
  by_cases hlow : score < 50
  · exact iff_of_false (thresholds_ne_reject hlow) (by omega)
  · refine iff_of_true ?_ (by omega)
    by_cases hhigh : score < 75
    · rw [thresholds_high (by omega) hhigh]
    · rw [thresholds_critical (by omega)]

/-- The action is a rejection when a call has rejected, or by the score. -/
theorem action_reject_iff (calls : List Call) :
    (assessed calls).action = .reject ↔
      (∃ call ∈ calls, call.isReject = true) ∨ 50 ≤ (assessed calls).score := by
  rw [action_assessed, ← List.any_eq_true]
  split
  · rename_i hreject
    exact iff_of_true rfl (Or.inl hreject)
  · rename_i hreject
    rw [thresholds_reject_iff]
    exact (or_iff_right hreject).symm

/-! ## The sum -/

theorem toInt32_of_lt {value : Nat} (h : value < 2 ^ 31) : toInt32 value = value := by
  rw [toInt32]
  exact Int.bmod_eq_of_le (by omega) (by omega)

/-- A sum that is just too large comes out below zero. -/
theorem toInt32_of_overflow {value : Nat} (h : 2 ^ 31 ≤ value) (h' : value < 2 ^ 32) :
    toInt32 value < 0 := by
  have hshift : ((value : Int) - 2 ^ 32).bmod (2 ^ 32) = (value : Int) - 2 ^ 32 :=
    Int.bmod_eq_of_le (by omega) (by omega)
  have hsame : ((value : Int) - 2 ^ 32).bmod (2 ^ 32) = (value : Int).bmod (2 ^ 32) :=
    Int.sub_bmod_right (value : Int) (2 ^ 32)
  rw [toInt32, ← hsame, hshift]
  omega

theorem score_of_lt (h : totalWeight calls < 2 ^ 31) :
    (assessed calls).score = min 100 (totalWeight calls : Int) := by
  rw [score_assessed, toInt32_of_lt h, min_comm]

/-- A call lowers nothing as long as the sum fits. -/
theorem notLower_of_lt (h : totalWeight (calls ++ [call]) < 2 ^ 31) :
    NotLower (assessed calls) (assessed (calls ++ [call])) := by
  have htotal := totalWeight_concat calls call
  have hbefore : (assessed calls).score = min 100 (totalWeight calls : Int) :=
    score_of_lt (by omega)
  have hafter := score_of_lt h
  have hscore : (assessed calls).score ≤ (assessed (calls ++ [call])).score := by
    rw [hbefore, hafter]
    omega
  have hmono := thresholds_mono (a := (assessed calls).score) (by omega) hscore
  have hany : (calls ++ [call]).any Call.isReject = (calls.any Call.isReject || call.isReject) := by
    rw [List.any_append, List.any_cons, List.any_nil, Bool.or_false]
  refine ⟨hscore, ?_, ?_⟩
  · rw [level_assessed, level_assessed, hany]
    cases calls.any Call.isReject with
    | true => exact le_refl _
    | false =>
      cases call.isReject with
      | true => exact Level.rank_le_critical _
      | false => exact hmono.1
  · rw [action_assessed, action_assessed, hany]
    cases calls.any Call.isReject with
    | true => exact le_refl _
    | false =>
      cases call.isReject with
      | true => exact Action.rank_le_reject _
      | false => exact hmono.2

/-- A sum that does not fit has come to that with one of the calls. -/
theorem exists_overflow (h : 2 ^ 31 ≤ totalWeight calls) :
    ∃ front call rest, calls = front ++ call :: rest ∧ totalWeight front < 2 ^ 31 ∧
      2 ^ 31 ≤ totalWeight (front ++ [call]) := by
  induction calls using List.reverseRecOn with
  | nil =>
    have hzero : totalWeight [] = 0 := rfl
    omega
  | append_singleton calls last ih =>
    by_cases hearlier : 2 ^ 31 ≤ totalWeight calls
    · obtain ⟨front, call, rest, rfl, hbefore, hafter⟩ := ih hearlier
      exact ⟨front, call, rest ++ [last], by simp, hbefore, hafter⟩
    · exact ⟨calls, last, [], rfl, by omega, h⟩

end Calls

/-- For every sequence of calls: the answer is what it should be, in any order, and no call has
lowered it on the way, if and only if the sum of the weights is less than 2^31. -/
theorem assess_sound_iff (calls : List Call) : Sound calls ↔ totalWeight calls < 2 ^ 31 := by
  constructor
  · intro h
    by_contra hlarge
    have hoverflow : 2 ^ 31 ≤ totalWeight calls := by omega
    obtain ⟨front, call, rest, heq, hbefore, hafter⟩ := exists_overflow hoverflow
    -- the call with which the sum no longer fits makes the score negative
    have htotal := totalWeight_concat front call
    have hweight := call.weight_lt
    have hnegative := toInt32_of_overflow hafter (by omega)
    have hscore := (h.growing front call rest heq).score
    rw [score_of_lt hbefore, score_assessed] at hscore
    omega
  · intro h
    refine ⟨score_of_lt h, fun other => sameButOrder_of_perm, action_reject_iff calls, ?_⟩
    intro front call rest heq
    apply notLower_of_lt
    have hcalls : calls = (front ++ [call]) ++ rest := by
      rw [heq, List.append_assoc]
      rfl
    have htotal := totalWeight_append (front ++ [call]) rest
    rw [← hcalls] at htotal
    omega

/-- The largest weight is a rejection, and with one more it is nearly nothing. -/
theorem not_sound_overflow :
    let large : Call := .add "large".toList 2147483647 []
    let calls : List Call := [large, .add "more".toList 1 []]
    (assessed [large]).action = .reject ∧ (assessed calls).score = -2147483648 ∧
      (assessed calls).level = .low ∧ (assessed calls).action = .allow ∧ ¬ Sound calls := by
  refine ⟨by decide, by decide, by decide, by decide, ?_⟩
  intro h
  exact absurd ((h.growing [_] _ [] rfl).action) (by decide)

end ExeCell.Risk
