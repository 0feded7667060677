import ExeCell.Lib.LexicalPath
import ExeCell.Report.Reporter

/-!
# The policy engine

`policy::Engine` checks events one at a time against lists of denied paths, endpoints and
system calls and against a limit on the number of processes. `policy::Reporter` puts the
engine in front of another reporter: every event is passed on, and after an event that
breaks a rule comes a `PolicyViolation` for it.
-/

namespace ExeCell.Policy

open Report

inductive Decision where
  | allow
  | deny
  deriving DecidableEq, Repr

structure Violation where
  rule : Text
  resource : Text
  context : EventContext
  deriving DecidableEq, Repr

structure Config where
  deniedPaths : List LexicalPath.Path := []
  deniedEndpoints : List Text := []
  deniedSyscalls : List Text := []
  /-- No limit when zero. -/
  maxProcesses : Nat := 0
  deriving DecidableEq, Repr

structure Engine where
  config : Config := {}
  violations : List Violation := []
  processCount : Nat := 0
  deriving DecidableEq, Repr

/-- The path of the event, else its endpoint, else nothing. -/
def resource (payload : Payload) : Text :=
  match payload.path? with
  | some path => path
  | none => payload.endpoint?.getD []

/-- The name of the system call, which only `SyscallFailed` carries. -/
def syscall : Payload → Text
  | .syscallFailed _ name _ => name
  | _ => []

def processSpawn : Payload → Bool
  | .processSpawned _ _ => true
  | _ => false

namespace Engine

/-- A `ProcessSpawned` event is counted before any rule is looked at. -/
def count (engine : Engine) (payload : Payload) : Engine :=
  if processSpawn payload then
    { engine with processCount := (engine.processCount + 1) % 2 ^ 64 }
  else engine

/-- The first rule that the event breaks, and what the violation names as its resource. -/
def broken (engine : Engine) (payload : Payload) : Option (Text × Text) :=
  let config := engine.config
  if config.deniedPaths.any (·.isPrefixOf (resource payload)) then
    some ("denied-path".toList, resource payload)
  else if config.deniedEndpoints.any fun denied =>
      !(resource payload).isEmpty && denied.isPrefixOf (resource payload) then
    some ("denied-endpoint".toList, resource payload)
  else if config.deniedSyscalls.any (syscall payload = ·) then
    some ("denied-syscall".toList, syscall payload)
  else if processSpawn payload ∧ config.maxProcesses ≠ 0 ∧
      engine.processCount > config.maxProcesses then
    some ("process-limit".toList, "process".toList)
  else none

/-- `Engine::evaluate`. -/
def evaluate (engine : Engine) (event : Event) : Decision × Engine :=
  let counted := engine.count event.payload
  match counted.broken event.payload with
  | none => (.allow, counted)
  | some (rule, resource) =>
    (.deny, { counted with violations := counted.violations ++ [⟨rule, resource, event.context⟩] })

@[simp] theorem count_config (engine : Engine) (payload : Payload) :
    (engine.count payload).config = engine.config := by
  rw [count]
  split <;> rfl

@[simp] theorem count_violations (engine : Engine) (payload : Payload) :
    (engine.count payload).violations = engine.violations := by
  rw [count]
  split <;> rfl

/-- What an evaluation can do: allow and record nothing, or deny and record one
violation in the context of the event. -/
theorem evaluate_cases (engine : Engine) (event : Event) :
    ((engine.count event.payload).broken event.payload = none ∧
        (engine.evaluate event).1 = .allow ∧
        (engine.evaluate event).2.violations = engine.violations) ∨
      ∃ rule resource, (engine.count event.payload).broken event.payload = some (rule, resource) ∧
        (engine.evaluate event).1 = .deny ∧
        (engine.evaluate event).2.violations =
          engine.violations ++ [⟨rule, resource, event.context⟩] := by
  rw [evaluate]
  split
  · rename_i hbroken
    exact Or.inl ⟨hbroken, rfl, count_violations ..⟩
  · rename_i rule resource hbroken
    refine Or.inr ⟨rule, resource, hbroken, rfl, ?_⟩
    simp

end Engine

/-! ## The reporter -/

/-- The members of `policy::Reporter`, with the state of the reporter behind it. -/
structure Front (ρ : Type) where
  engine : Engine := {}
  denied : Bool := false
  downstream : ρ

/-- `policy::Reporter`. -/
def reporter {ρ : Type} (R : Reporter ρ) : Reporter (Front ρ) where
  report s event :=
    let downstream := R.report s.downstream event
    match s.engine.evaluate event with
    | (.allow, engine) => { s with engine := engine, downstream := downstream }
    | (.deny, engine) =>
      { engine := engine
        denied := true
        downstream :=
          match engine.violations.getLast? with
          | none => downstream
          | some violation =>
            R.report downstream
              ⟨.policyViolation violation.rule violation.resource, violation.context⟩ }
  stopRequested s := s.denied

end ExeCell.Policy
