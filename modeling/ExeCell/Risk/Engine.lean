import ExeCell.Core.Text

/-!
# The risk engine

`risk::Engine`: weighted factors, whose sum is mapped to a level and an action by fixed
thresholds.
-/

namespace ExeCell.Risk

inductive Level where
  | none
  | low
  | medium
  | high
  | critical
  deriving DecidableEq, Repr

inductive Action where
  | allow
  | audit
  | reject
  deriving DecidableEq, Repr

/-- `to_string` of a level. -/
def Level.text : Level → Text
  | .none => "none".toList
  | .low => "low".toList
  | .medium => "medium".toList
  | .high => "high".toList
  | .critical => "critical".toList

/-- `to_string` of an action. -/
def Action.text : Action → Text
  | .allow => "allow".toList
  | .audit => "audit".toList
  | .reject => "reject".toList

/-- The order of severity. -/
def Level.rank : Level → Nat
  | .none => 0
  | .low => 1
  | .medium => 2
  | .high => 3
  | .critical => 4

def Action.rank : Action → Nat
  | .allow => 0
  | .audit => 1
  | .reject => 2

theorem Level.rank_le_critical (level : Level) : level.rank ≤ Level.critical.rank := by
  cases level <;> decide

theorem Action.rank_le_reject (action : Action) : action.rank ≤ Action.reject.rank := by
  cases action <;> decide

structure Factor where
  name : Text
  weight : Int
  explanation : Text
  deriving DecidableEq, Repr

structure Finding where
  id : Text
  resource : Text := []
  pid : Pid := 0
  sequence : Nat := 0
  explanation : Text
  weight : Int
  deriving DecidableEq, Repr

structure Assessment where
  score : Int := 0
  level : Level := .none
  action : Action := .allow
  factors : List Factor := []
  findings : List Finding := []
  deriving DecidableEq, Repr

structure Engine where
  factors : List Factor := []
  directReject : Bool := false
  deriving DecidableEq, Repr

namespace Engine

def add (engine : Engine) (name : Text) (weight : Int) (explanation : Text) : Engine :=
  { engine with factors := engine.factors ++ [⟨name, max 0 weight, explanation⟩] }

def reject (engine : Engine) (name explanation : Text) : Engine :=
  { factors := engine.factors ++ [⟨name, 0, explanation⟩], directReject := true }

end Engine

/-- The thresholds of `assess`. -/
def thresholds (score : Int) : Level × Action :=
  if score ≥ 75 then (.critical, .reject)
  else if score ≥ 50 then (.high, .reject)
  else if score ≥ 25 then (.medium, .audit)
  else if score ≠ 0 then (.low, .allow)
  else (.none, .allow)

/-- The sum of the weights in an `int`. -/
def scoreOf (factors : List Factor) : Int :=
  factors.foldl (fun score factor => toInt32 (score + factor.weight)) 0

/-- `Engine::assess`. -/
def Engine.assess (engine : Engine) : Assessment :=
  let score := min (scoreOf engine.factors) 100
  let (level, action) := if engine.directReject then (.critical, .reject) else thresholds score
  { score := score
    level := level
    action := action
    factors := engine.factors
    findings := engine.factors.map fun factor =>
      { id := factor.name, explanation := factor.explanation, weight := factor.weight } }

theorem scoreOf_eq (factors : List Factor) :
    scoreOf factors = toInt32 (factors.map Factor.weight).sum := by
  have hfold : ∀ start : Int,
      factors.foldl (fun score factor => toInt32 (score + factor.weight)) (toInt32 start) =
        toInt32 (start + (factors.map Factor.weight).sum) := by
    induction factors with
    | nil =>
      intro start
      simp
    | cons factor factors ih =>
      intro start
      have hstep : toInt32 (toInt32 start + factor.weight) = toInt32 (start + factor.weight) :=
        Int.bmod_add_bmod
      rw [List.foldl_cons, hstep, ih, List.map_cons, List.sum_cons, Int.add_assoc]
  have h := hfold 0
  rwa [Int.zero_add] at h

theorem thresholds_critical {score : Int} (h : 75 ≤ score) :
    thresholds score = (.critical, .reject) := if_pos h

theorem thresholds_high {score : Int} (h : 50 ≤ score) (h' : score < 75) :
    thresholds score = (.high, .reject) := by
  rw [thresholds, if_neg (by omega), if_pos h]

theorem thresholds_medium {score : Int} (h : 25 ≤ score) (h' : score < 50) :
    thresholds score = (.medium, .audit) := by
  rw [thresholds, if_neg (by omega), if_neg (by omega), if_pos h]

theorem thresholds_mild {score : Int} (h : score < 25) :
    thresholds score = (.low, .allow) ∨ thresholds score = (.none, .allow) := by
  rw [thresholds, if_neg (by omega), if_neg (by omega), if_neg (by omega)]
  split
  · exact Or.inl rfl
  · exact Or.inr rfl

theorem thresholds_ne_reject {score : Int} (h : score < 50) : (thresholds score).2 ≠ .reject := by
  by_cases hmild : score < 25
  · rcases thresholds_mild hmild with heq | heq <;> simp [heq]
  · simp [thresholds_medium (show 25 ≤ score by omega) h]

/-- A higher score never has a lower level or a milder action, from zero on. -/
theorem thresholds_mono {a b : Int} (ha : 0 ≤ a) (hab : a ≤ b) :
    (thresholds a).1.rank ≤ (thresholds b).1.rank ∧
      (thresholds a).2.rank ≤ (thresholds b).2.rank := by
  simp only [thresholds]
  split_ifs <;> first | (simp [Level.rank, Action.rank]; done) | omega

end ExeCell.Risk
