import ExeCell.Risk.Engine

/-!
# The verdict of a scan

The last part of `package::scan`: the risk factors of what was found, the assessment, and
the adjustment when the stored history of the package shows a different behaviour. Score,
level, action, verdict and `ok` are written in both places, with thresholds of their own
in the second and without `ok` there.

`scanRisk_consistent_iff` says for which findings the adjusted result still agrees with
the engine's thresholds.
-/

namespace ExeCell.Package

open Risk (Engine Assessment Level Action Factor thresholds)

/-- What a scan has found when it comes to the assessment. -/
structure Found where
  installed : Bool := true
  scripts : List Text := []
  hooks : List Text := []
  created : List Text := []
  modeChanged : List Text := []
  ownershipChanged : List Text := []
  hashChanged : List Text := []
  networkEvents : List Text := []
  /-- `options.network`. -/
  network : Text := "off".toList
  observedFactors : List Text := []
  /-- The texts of the result so far, those of the observation included. -/
  riskFactors : List Text := []
  deriving DecidableEq, Repr

/-- `storage::VersionDelta`, as far as `scan` reads it. -/
structure VersionDelta where
  compared : Bool
  identityChanged : Bool := false
  sourceChanged : Bool := false
  dependenciesChanged : Bool := false
  addedEvents : List Text := []
  deriving DecidableEq, Repr

/-- How the storing of the observation goes. -/
inductive StoreOutcome where
  /-- The program was built without SQLite. -/
  | unavailable
  | parentFailed
  /-- A call has thrown; `stored` is the baseline, when only the comparison has. -/
  | threw (stored : Option Bool) (what : Text)
  | stored (baseline : Bool) (previous : Option (Text × VersionDelta))
  deriving DecidableEq, Repr

/-- The part of `package::Result` that the assessment writes. -/
structure ScanResult where
  ok : Bool := true
  riskScore : Int := 0
  riskLevel : Text := "none".toList
  riskAction : Text := "reject".toList
  verdict : Text := "reject".toList
  riskFactors : List Text := []
  baseline : Bool := false
  deriving DecidableEq, Repr

/-! ## The assessment -/

def addIf (condition : Bool) (engine : Engine) (name : String) (weight : Int)
    (explanation : String) : Engine :=
  if condition then engine.add name.toList weight explanation.toList else engine

/-- The factors of what was found. -/
def riskEngine (found : Found) : Engine :=
  let engine := addIf (!found.installed) {} "rootless" 5
    "package install scripts were not executed"
  let engine := addIf (!found.scripts.isEmpty) engine "scripts" 15
    "maintainer scripts execute package-provided code"
  let engine := addIf (!found.hooks.isEmpty) engine "hooks" 20
    "package hooks can execute during installation"
  let engine := addIf (!found.created.isEmpty) engine "filesystem"
    (min (found.created.length * 2) 20 : Nat) "package changed files in isolated rootfs"
  let engine := addIf (!found.modeChanged.isEmpty) engine "file_modes" 15
    "package changed file permissions"
  let engine := addIf (!found.ownershipChanged.isEmpty) engine "file_ownership" 20
    "package changed file ownership"
  let engine := addIf (!found.hashChanged.isEmpty) engine "file_hashes" 10
    "package changed file contents"
  let engine := addIf (!found.networkEvents.isEmpty && found.network = "mirror".toList) engine
    "network" 15 "package attempted network access under mirror policy"
  found.observedFactors.foldl (fun engine factor => engine.add "observation".toList 10 factor)
    engine

/-- The result after the assessment. -/
def assessed (found : Found) : ScanResult :=
  let assessment := (riskEngine found).assess
  { ok := assessment.action ≠ .reject
    riskScore := assessment.score
    riskLevel := assessment.level.text
    riskAction := assessment.action.text
    verdict := assessment.action.text
    riskFactors := found.riskFactors ++
      assessment.factors.map fun factor => factor.name ++ ": ".toList ++ factor.explanation }

/-- The delta makes `scan` adjust its result. -/
def VersionDelta.applies (delta : VersionDelta) : Bool :=
  delta.compared && (delta.identityChanged || delta.sourceChanged || delta.dependenciesChanged ||
    !delta.addedEvents.isEmpty)

/-- The adjustment for a behavioural delta. -/
def applyDelta (result : ScanResult) (previous : Text) : ScanResult :=
  let score := min 100 (result.riskScore + 15)
  let action := if score ≥ 50 then "reject".toList else "audit".toList
  { result with
    riskFactors := result.riskFactors ++ ["behavioral delta from version ".toList ++ previous]
    riskScore := score
    riskLevel := if score ≥ 50 then "high".toList else "medium".toList
    riskAction := action
    verdict := action }

/-- `scan` from the assessment to its end. -/
def scanRisk (found : Found) (outcome : StoreOutcome) : ScanResult :=
  let result := assessed found
  match outcome with
  | .unavailable => result
  | .parentFailed =>
    { result with
      riskFactors := result.riskFactors ++ ["SQLite database parent creation failed".toList] }
  | .threw stored what =>
    { result with
      baseline := stored.getD result.baseline
      riskFactors := result.riskFactors ++ ["SQLite observation storage failed: ".toList ++ what] }
  | .stored baseline none => { result with baseline := baseline }
  | .stored baseline (some (previous, delta)) =>
    let result := { result with baseline := baseline }
    if delta.applies then applyDelta result previous else result

/-! ## The weight of what was found -/

/-- What the findings weigh together. -/
def Found.weight (found : Found) : Int :=
  (if found.installed then 0 else 5) +
  (if found.scripts = [] then 0 else 15) +
  (if found.hooks = [] then 0 else 20) +
  (min (found.created.length * 2) 20 : Nat) +
  (if found.modeChanged = [] then 0 else 15) +
  (if found.ownershipChanged = [] then 0 else 20) +
  (if found.hashChanged = [] then 0 else 10) +
  (if found.networkEvents ≠ [] ∧ found.network = "mirror".toList then 15 else 0) +
  10 * found.observedFactors.length

/-- The score that this weight has in an `int`. -/
def Found.score (found : Found) : Int := toInt32 found.weight

/-- The weights of an engine, together. -/
def engineWeight (engine : Engine) : Int := (engine.factors.map Factor.weight).sum

theorem engineWeight_add (engine : Engine) (name : Text) (weight : Int) (explanation : Text) :
    engineWeight (engine.add name weight explanation) = engineWeight engine + max 0 weight := by
  simp [engineWeight, Engine.add]

theorem engineWeight_addIf (condition : Bool) (engine : Engine) (name : String) (weight : Int)
    (explanation : String) :
    engineWeight (addIf condition engine name weight explanation) =
      engineWeight engine + if condition then max 0 weight else 0 := by
  rw [addIf]
  split
  · exact engineWeight_add ..
  · exact (Int.add_zero _).symm

theorem engineWeight_observed (factors : List Text) (engine : Engine) :
    engineWeight
        (factors.foldl (fun engine factor => engine.add "observation".toList 10 factor) engine) =
      engineWeight engine + 10 * factors.length := by
  induction factors generalizing engine with
  | nil => simp
  | cons factor factors ih =>
    rw [List.foldl_cons, ih, engineWeight_add, List.length_cons]
    push_cast
    omega

theorem weight_of_list (l : List Text) {weight : Int} (h : 0 ≤ weight) :
    (if !l.isEmpty then max 0 weight else 0) = if l = [] then 0 else weight := by
  cases l with
  | nil => rfl
  | cons a l => exact Int.max_eq_right h

theorem engineWeight_riskEngine (found : Found) :
    engineWeight (riskEngine found) = found.weight := by
  have hinstalled : (if !found.installed then max 0 5 else 0) =
      if found.installed then 0 else (5 : Int) := by
    cases found.installed <;> rfl
  have hcreated : (if !found.created.isEmpty then
      max 0 ((min (found.created.length * 2) 20 : Nat) : Int) else 0) =
      (min (found.created.length * 2) 20 : Nat) := by
    cases found.created with
    | nil => rfl
    | cons a l => simp
  have hnetwork : (if !found.networkEvents.isEmpty && found.network = "mirror".toList then
      max 0 15 else 0) =
      if found.networkEvents ≠ [] ∧ found.network = "mirror".toList then (15 : Int) else 0 := by
    have hmax : max 0 (15 : Int) = 15 := rfl
    rw [hmax]
    generalize "mirror".toList = mirror
    cases found.networkEvents with
    | nil => simp
    | cons a l => simp
  rw [riskEngine, engineWeight_observed]
  simp only [engineWeight_addIf]
  rw [hinstalled, weight_of_list _ (by omega), weight_of_list _ (by omega), hcreated,
    weight_of_list _ (by omega), weight_of_list _ (by omega), weight_of_list _ (by omega), hnetwork]
  simp only [engineWeight, List.map_nil, List.sum_nil, Int.zero_add, Found.weight]

theorem assess_score (found : Found) :
    (riskEngine found).assess.score = min found.score 100 := by
  show min (Risk.scoreOf (riskEngine found).factors) 100 = min found.score 100
  rw [Risk.scoreOf_eq]
  exact congrArg (fun weight => min (toInt32 weight) 100) (engineWeight_riskEngine found)

/-! ## Consistency -/

/-- The result agrees with itself and with the engine's thresholds, and it is no milder
than the assessment it started from. -/
structure Consistent (found : Found) (result : ScanResult) : Prop where
  ok : result.ok = false ↔ result.verdict = "reject".toList
  verdict : result.verdict = result.riskAction
  level : result.riskLevel = (thresholds result.riskScore).1.text
  action : result.riskAction = (thresholds result.riskScore).2.text
  notMilder :
    (riskEngine found).assess.level.rank ≤ (thresholds result.riskScore).1.rank ∧
      (riskEngine found).assess.action.rank ≤ (thresholds result.riskScore).2.rank

/-- The delta of the stored history that `scan` applies. -/
def StoreOutcome.delta? : StoreOutcome → Option Text
  | .stored _ (some (previous, delta)) => if delta.applies then some previous else none
  | _ => none

theorem directReject_riskEngine (found : Found) : (riskEngine found).directReject = false := by
  have hadd : ∀ condition engine name weight explanation,
      (addIf condition engine name weight explanation).directReject = engine.directReject := by
    intro condition engine name weight explanation
    cases condition <;> rfl
  have hfold : ∀ (factors : List Text) (engine : Engine),
      (factors.foldl (fun engine factor => engine.add "observation".toList 10 factor)
        engine).directReject = engine.directReject := by
    intro factors
    induction factors with
    | nil => exact fun _ => rfl
    | cons factor factors ih => exact fun engine => ih _
  rw [riskEngine, hfold]
  simp only [hadd]

theorem assess_thresholds (found : Found) :
    ((riskEngine found).assess.level, (riskEngine found).assess.action) =
      thresholds (min found.score 100) := by
  rw [← assess_score]
  show (if (riskEngine found).directReject then _ else thresholds _) = _
  rw [directReject_riskEngine]
  rfl

theorem reject_text_iff (action : Action) : action.text = "reject".toList ↔ action = .reject := by
  cases action <;> decide

/-- Whatever the database says, the result differs from the assessment only where a delta
applies. -/
theorem scanRisk_eq (found : Found) (outcome : StoreOutcome) :
    ∃ factors baseline, scanRisk found outcome =
      match outcome.delta? with
      | none => { assessed found with riskFactors := factors, baseline := baseline }
      | some previous => applyDelta { assessed found with baseline := baseline } previous := by
  cases outcome with
  | unavailable => exact ⟨_, _, rfl⟩
  | parentFailed => exact ⟨_, _, rfl⟩
  | threw stored what => exact ⟨_, _, rfl⟩
  | stored baseline previous =>
    cases previous with
    | none => exact ⟨_, _, rfl⟩
    | some entry =>
      obtain ⟨previous, delta⟩ := entry
      refine ⟨(assessed found).riskFactors, baseline, ?_⟩
      simp only [scanRisk, StoreOutcome.delta?]
      cases delta.applies <;> rfl

section Assessed

variable (found : Found)

theorem assess_level : (riskEngine found).assess.level = (thresholds (min found.score 100)).1 :=
  congrArg Prod.fst (assess_thresholds found)

theorem assess_action : (riskEngine found).assess.action = (thresholds (min found.score 100)).2 :=
  congrArg Prod.snd (assess_thresholds found)

/-- Without a delta the result is the assessment, which is consistent. -/
theorem assessed_consistent (factors : List Text) (baseline : Bool) :
    Consistent found { assessed found with riskFactors := factors, baseline := baseline } where
  ok := by
    show decide _ = false ↔ (riskEngine found).assess.action.text = _
    rw [decide_eq_false_iff_not, not_not, reject_text_iff]
  verdict := rfl
  level := by
    show (riskEngine found).assess.level.text = (thresholds (riskEngine found).assess.score).1.text
    rw [assess_level, assess_score]
  action := by
    show (riskEngine found).assess.action.text = (thresholds (riskEngine found).assess.score).2.text
    rw [assess_action, assess_score]
  notMilder := by
    show _ ≤ (thresholds (riskEngine found).assess.score).1.rank ∧
      _ ≤ (thresholds (riskEngine found).assess.score).2.rank
    rw [assess_level, assess_action, assess_score]
    exact ⟨le_refl _, le_refl _⟩

/-- The fields of an adjusted result. -/
theorem applyDelta_fields (baseline : Bool) (previous : Text) {final : Int}
    (hfinal : final = min 100 (min found.score 100 + 15)) :
    let result := applyDelta { assessed found with baseline := baseline } previous
    result.riskScore = final ∧
      result.riskLevel = (if final ≥ 50 then "high".toList else "medium".toList) ∧
      result.riskAction = (if final ≥ 50 then "reject".toList else "audit".toList) ∧
      result.verdict = result.riskAction ∧
      result.ok = decide ((thresholds (min found.score 100)).2 ≠ .reject) := by
  intro result
  have hscore : result.riskScore = final := by
    show min 100 ((riskEngine found).assess.score + 15) = final
    rw [assess_score, hfinal]
  refine ⟨hscore, ?_, ?_, rfl, ?_⟩
  · rw [← hscore]
    rfl
  · rw [← hscore]
    rfl
  · rw [← assess_action]
    rfl

/-- An adjusted result is consistent when its level and its action are those of its score. -/
theorem applyDelta_consistent (baseline : Bool) (previous : Text) {final : Int}
    (hfinal : final = min 100 (min found.score 100 + 15)) (hnonneg : 0 ≤ found.score)
    (hlevel : (if final ≥ 50 then "high".toList else "medium".toList) = (thresholds final).1.text)
    (haction : (if final ≥ 50 then "reject".toList else "audit".toList) =
      (thresholds final).2.text)
    (hok : (thresholds (min found.score 100)).2 = .reject ↔ final ≥ 50) :
    Consistent found (applyDelta { assessed found with baseline := baseline } previous) := by
  obtain ⟨hscore, hlevel', haction', hverdict, hok'⟩ :=
    applyDelta_fields found baseline previous hfinal
  refine ⟨?_, rfl, ?_, ?_, ?_⟩
  · rw [hok', hverdict, haction', decide_eq_false_iff_not, not_not, hok]
    split
    · exact iff_of_true ‹_› rfl
    · exact iff_of_false ‹_› (by decide)
  · rw [hlevel', hscore, hlevel]
  · rw [haction', hscore, haction]
  · rw [hscore, assess_level, assess_action]
    exact Risk.thresholds_mono (by omega) (by omega)

/-- The adjustment for a delta keeps the result consistent in two ranges of the score. -/
theorem applyDelta_consistent_iff (baseline : Bool) (previous : Text) :
    Consistent found (applyDelta { assessed found with baseline := baseline } previous) ↔
      (10 ≤ found.score ∧ found.score < 35) ∨ (50 ≤ found.score ∧ found.score < 60) := by
  obtain ⟨final, hfinal⟩ : ∃ final, final = min 100 (min found.score 100 + 15) := ⟨_, rfl⟩
  constructor
  · intro h
    obtain ⟨hscore, hlevel, haction, hverdict, hok⟩ :=
      applyDelta_fields found baseline previous hfinal
    have h1 := h.level
    have h2 := h.ok
    rw [hscore, hlevel] at h1
    rw [hok, hverdict, haction, decide_eq_false_iff_not, not_not] at h2
    by_contra hrange
    by_cases hlow : found.score < 10
    · -- the sum stays below the lowest threshold, and the level is set to medium
      rw [if_neg (by omega)] at h1
      rcases Risk.thresholds_mild (show final < 25 by omega) with hmild | hmild
      · rw [hmild] at h1
        cases h1
      · rw [hmild] at h1
        cases h1
    · by_cases hmiddle : found.score < 50
      · -- the action becomes a rejection and `ok` stays true
        rw [if_pos (by omega), Risk.thresholds_medium (by omega) (by omega)] at h2
        cases h2.mpr rfl
      · -- the sum is critical, and the level is set to high
        rw [if_pos (by omega), Risk.thresholds_critical (by omega)] at h1
        cases h1
  · rintro (⟨hle, hlt⟩ | ⟨hle, hlt⟩)
    · have hnext : ¬ final ≥ 50 := by omega
      apply applyDelta_consistent found baseline previous hfinal (by omega)
      · rw [Risk.thresholds_medium (by omega) (by omega), if_neg hnext]
        rfl
      · rw [Risk.thresholds_medium (by omega) (by omega), if_neg hnext]
        rfl
      · exact iff_of_false (Risk.thresholds_ne_reject (by omega)) hnext
    · have hnext : final ≥ 50 := by omega
      apply applyDelta_consistent found baseline previous hfinal (by omega)
      · rw [Risk.thresholds_high (by omega) (by omega), if_pos hnext]
        rfl
      · rw [Risk.thresholds_high (by omega) (by omega), if_pos hnext]
        rfl
      · rw [Risk.thresholds_high (by omega) (by omega)]
        exact iff_of_true rfl hnext

end Assessed

/-- For everything a scan can find and whatever the stored history yields, the result is
consistent if and only if no delta is applied, or the findings weigh from 10 to 34 or
from 50 to 59. -/
theorem scanRisk_consistent_iff (found : Found) (outcome : StoreOutcome) :
    Consistent found (scanRisk found outcome) ↔
      outcome.delta? = none ∨ (10 ≤ found.score ∧ found.score < 35) ∨
        (50 ≤ found.score ∧ found.score < 60) := by
  obtain ⟨factors, baseline, heq⟩ := scanRisk_eq found outcome
  rw [heq]
  cases hdelta : outcome.delta? with
  | none =>
    refine iff_of_true ?_ (Or.inl rfl)
    exact assessed_consistent found factors baseline
  | some previous =>
    rw [applyDelta_consistent_iff]
    refine ⟨Or.inr, ?_⟩
    rintro (h | h)
    · cases h
    · exact h

/-- A package that was not installed, with a script and a hook, and whose behaviour
differs from its last version. -/
theorem scanRisk_rejects_with_ok :
    let found : Found :=
      { installed := false, scripts := [".INSTALL".toList],
        hooks := ["usr/share/libalpm/hooks/x.hook".toList] }
    let delta : VersionDelta := { compared := true, identityChanged := true }
    let result := scanRisk found (.stored false (some ("1.0-1".toList, delta)))
    result.verdict = "reject".toList ∧ result.ok = true ∧ ¬ Consistent found result := by
  refine ⟨by decide, by decide, ?_⟩
  intro h
  exact absurd (h.ok.mpr (by decide)) (by decide)

end ExeCell.Package
