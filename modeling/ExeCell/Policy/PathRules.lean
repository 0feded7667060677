import ExeCell.Policy.Engine

/-!
# Path rules

`Engine::evaluate` compares the text of a denied path with the start of the text of the
event's path. `reportsDeniedPath_covers_iff` says when this comes to a rule about directories:
where a denied path reaches too far, another one covers the path, and where one that covers it
is spelled in another way, another one is found.
-/

namespace ExeCell.Policy

open LexicalPath

/-- The evaluation of the event records a violation of the rule on paths. -/
def Engine.ReportsDeniedPath (engine : Engine) (event : Event) : Prop :=
  (engine.evaluate event).1 = .deny ∧
    ∃ violation : Violation, violation.rule = "denied-path".toList ∧
      (engine.evaluate event).2.violations = engine.violations ++ [violation]

/-- Some denied path is the directory of the event's path, or lies above it. -/
def Config.CoversPath (config : Config) (path : Path) : Prop :=
  ∃ rule ∈ config.deniedPaths, Covers rule path

instance (config : Config) (path : Path) : Decidable (config.CoversPath path) :=
  inferInstanceAs (Decidable (∃ rule ∈ config.deniedPaths, Covers rule path))

namespace Engine

variable (engine : Engine) (event : Event)

theorem broken_deniedPath_iff (payload : Payload) :
    (∃ named, engine.broken payload = some ("denied-path".toList, named)) ↔
      ∃ rule ∈ engine.config.deniedPaths, rule <+: resource payload := by
  rw [broken]
  split
  · rename_i hany
    simpa using hany
  · rename_i hnone
    have hfalse : ¬ ∃ rule ∈ engine.config.deniedPaths, rule <+: resource payload := by
      simpa using hnone
    refine iff_of_false ?_ hfalse
    -- the other rules have other names
    split_ifs <;> simp

theorem reportsDeniedPath_iff :
    engine.ReportsDeniedPath event ↔
      ∃ rule ∈ engine.config.deniedPaths, rule <+: resource event.payload := by
  have hbroken := (engine.count event.payload).broken_deniedPath_iff event.payload
  rw [count_config] at hbroken
  rw [← hbroken, ReportsDeniedPath]
  rcases engine.evaluate_cases event with ⟨hnone, hallow, -⟩ | ⟨rule, named, hsome, hdeny, hlog⟩
  · rw [hnone, hallow]
    simp
  · rw [hsome, hdeny, hlog]
    simp

/-- A path event is denied as the rules mean it exactly when a rule that reaches too far does
not go without one that covers the path, and a rule that covers the path and is spelled in
another way does not go without one that is found in the text. -/
theorem reportsDeniedPath_covers_iff (path : Path) (hpath : event.payload.path? = some path) :
    (engine.ReportsDeniedPath event ↔ engine.config.CoversPath path) ↔
      ((∃ rule ∈ engine.config.deniedPaths, Overreaches rule path) →
        engine.config.CoversPath path) ∧
      ((∃ rule ∈ engine.config.deniedPaths, Respelled rule path) →
        ∃ rule ∈ engine.config.deniedPaths, rule <+: path) := by
  have hresource : resource event.payload = path := by rw [resource, hpath]
  rw [reportsDeniedPath_iff, hresource]
  constructor
  · intro h
    refine ⟨?_, ?_⟩
    · rintro ⟨rule, hmem, hstart, _⟩
      exact h.mp ⟨rule, hmem, hstart⟩
    · rintro ⟨rule, hmem, hcovers, _⟩
      exact h.mpr ⟨rule, hmem, hcovers⟩
  · rintro ⟨hreach, hspelled⟩
    constructor
    · rintro ⟨rule, hmem, hstart⟩
      by_cases hover : Overreaches rule path
      · exact hreach ⟨rule, hmem, hover⟩
      · exact ⟨rule, hmem, covers_of_prefix hstart hover⟩
    · rintro ⟨rule, hmem, hcovers⟩
      by_cases halike : NormalRule rule ∧ SpelledOut path (normalNames rule).length
      · exact ⟨rule, hmem, halike.1.prefix_of_spelledOut hcovers halike.2⟩
      · exact hspelled ⟨rule, hmem, hcovers, halike⟩

/-- An engine that denies `/etc`. -/
def denyEtc : Engine := { config := { deniedPaths := ["/etc".toList] } }

/-- A file has been opened. -/
def opened (path : String) : Event := ⟨.fileOpened 3 path.toList, {}⟩

/-- A denied path with a slash at its end, and one that has nothing to do with the event. -/
theorem reportsDeniedPath_covers_iff_hostname :
    let engine : Engine := { config := { deniedPaths := ["/etc/".toList, "/var/tmp/".toList] } }
    engine.ReportsDeniedPath (opened "/etc/hostname") ↔
      engine.config.CoversPath "/etc/hostname".toList := by
  intro engine
  refine (engine.reportsDeniedPath_covers_iff (opened "/etc/hostname") "/etc/hostname".toList
    rfl).mpr ⟨fun _ => by decide, fun _ => ⟨"/etc/".toList, by decide, by decide⟩⟩

/-- `/tmp/../etc/shadow` passes the rule `/etc`, and `/etcetera/x` is denied by it. -/
theorem denyEtc_not_directories :
    (denyEtc.config.CoversPath "/tmp/../etc/shadow".toList ∧
        ¬ denyEtc.ReportsDeniedPath (opened "/tmp/../etc/shadow")) ∧
      (¬ denyEtc.config.CoversPath "/etcetera/x".toList ∧
        denyEtc.ReportsDeniedPath (opened "/etcetera/x")) := by
  refine ⟨⟨by decide, ?_⟩, by decide, ?_⟩
  · rw [reportsDeniedPath_iff]
    decide
  · rw [reportsDeniedPath_iff]
    decide

end Engine

end ExeCell.Policy
