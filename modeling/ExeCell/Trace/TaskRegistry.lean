import ExeCell.Trace.Decoder

/-!
# The task registry

`TaskRegistry` owns the traced tasks. A task keeps its descriptor table, its decoder
and the phase of its system calls: whether its next syscall stop is taken for the
entry or for the exit of a call.
-/

namespace ExeCell.Trace

inductive SyscallPhase where
  | entry
  | exit
  | unknown
  deriving DecidableEq, Repr

/-- `TaskRegistry::Task`. -/
structure Task where
  pid : Pid
  parentPid : Pid := 0
  fdTable : FdTable := {}
  decoder : SyscallDecoder := {}
  phase : SyscallPhase := .entry

structure TaskRegistry where
  tasks : AList (fun _ : Pid => Task) := ∅

namespace TaskRegistry

def find (registry : TaskRegistry) (pid : Pid) : Option Task := registry.tasks.lookup pid

/-- `tasks_.emplace`: an existing entry is kept. -/
def emplace (registry : TaskRegistry) (pid : Pid) (task : Task) : TaskRegistry :=
  if (registry.find pid).isSome then registry else ⟨registry.tasks.insert pid task⟩

def insertRoot (registry : TaskRegistry) (pid : Pid) : TaskRegistry :=
  registry.emplace pid { pid := pid }

def insertChild (registry : TaskRegistry) (pid parentPid : Pid) (inherited : FdTable) :
    TaskRegistry :=
  registry.emplace pid { pid := pid, parentPid := parentPid, fdTable := inherited }

def erase (registry : TaskRegistry) (pid : Pid) : TaskRegistry := ⟨registry.tasks.erase pid⟩

def isEmpty (registry : TaskRegistry) : Bool := registry.tasks.keys.isEmpty

/-- Write the members of a task through the pointer that `find` returned. -/
def put (registry : TaskRegistry) (pid : Pid) (task : Task) : TaskRegistry :=
  ⟨registry.tasks.insert pid task⟩

@[simp] theorem find_put_self (registry : TaskRegistry) (pid : Pid) (task : Task) :
    (registry.put pid task).find pid = some task :=
  AList.lookup_insert _

@[simp] theorem find_put_of_ne (registry : TaskRegistry) {pid other : Pid} (task : Task)
    (h : other ≠ pid) : (registry.put pid task).find other = registry.find other :=
  AList.lookup_insert_ne h

@[simp] theorem find_erase_of_ne (registry : TaskRegistry) {pid other : Pid}
    (h : other ≠ pid) : (registry.erase pid).find other = registry.find other :=
  AList.lookup_erase_ne h

@[simp] theorem find_erase_self (registry : TaskRegistry) (pid : Pid) :
    (registry.erase pid).find pid = none :=
  AList.lookup_erase pid _

theorem find_emplace_of_ne (registry : TaskRegistry) {pid other : Pid} (task : Task)
    (h : other ≠ pid) : (registry.emplace pid task).find other = registry.find other := by
  unfold emplace
  split
  · rfl
  · exact AList.lookup_insert_ne h

theorem find_emplace_of_none {registry : TaskRegistry} {pid : Pid} {task : Task}
    (h : registry.find pid = none) : (registry.emplace pid task).find pid = some task := by
  unfold emplace
  rw [h, if_neg (by simp)]
  exact AList.lookup_insert _

/-- Registering a child never changes an entry that is already there. -/
theorem find_emplace_of_some {registry : TaskRegistry} {pid other : Pid} {task found : Task}
    (h : registry.find other = some found) :
    (registry.emplace pid task).find other = some found := by
  unfold emplace
  split
  · exact h
  · rename_i hnone
    have hne : other ≠ pid := by
      rintro rfl
      exact hnone (by rw [h]; rfl)
    exact (AList.lookup_insert_ne hne).trans h

theorem find_emplace (registry : TaskRegistry) (pid other : Pid) (task : Task) :
    (registry.emplace pid task).find other =
      if pid = other then (registry.find other).or (some task) else registry.find other := by
  split
  · rename_i heq
    subst heq
    cases hfind : registry.find pid with
    | none => exact find_emplace_of_none hfind
    | some found => exact find_emplace_of_some hfind
  · rename_i hne
    exact find_emplace_of_ne _ _ (Ne.symm hne)

theorem isEmpty_of_find {registry : TaskRegistry} {pid : Pid}
    (h : (registry.find pid).isSome = true) : registry.isEmpty = false := by
  have hmem : pid ∈ registry.tasks.keys := AList.lookup_isSome.mp h
  cases hkeys : registry.tasks.keys with
  | nil =>
    rw [hkeys] at hmem
    cases hmem
  | cons first keys =>
    unfold isEmpty
    rw [hkeys]
    rfl

end TaskRegistry

end ExeCell.Trace
