import ExeCell.Sandbox.Completion

/-!
# The target and the death of its parent

`set_parent_death_signal`, the first thing the child of `sandbox::run` does: it looks
whether its parent is still the process that forked it, asks the kernel for `SIGKILL` at
the parent's death, and looks again. The parent can die at any moment, alone or, when
`run_captured` kills its process group, with everything that is in the group. The kernel
then gives the child another parent and closes the parent's end of the pipe.

A child that loses its parent does not get past the second look, unless it changes its
credentials later: the kernel does not keep the signal over such a change.
-/

namespace ExeCell.Sandbox

/-! ## The two processes and the kernel -/

/-- The process ids that `getppid` returns: that of the parent, and after its death that
of the process which adopts the child. -/
structure Kin where
  parent : Nat
  reaper : Nat
  distinct : reaper ≠ parent

structure Family where
  world : World
  parentAlive : Bool := true
  /-- The parent death signal of the child is `SIGKILL`. -/
  armed : Bool := false
  /-- The child is still in the process group of its parent. -/
  grouped : Bool := true
  deriving DecidableEq, Repr

def Family.getppid (kin : Kin) (f : Family) : Nat :=
  if f.parentAlive then kin.parent else kin.reaper

/-- Both looks at the parent answer with the process id that `run` has taken before its
fork; `parent` of `set_parent_death_signal` is that id once the first has passed. -/
def Family.truthful (kin : Kin) (f : Family) (op : ChildOp) (answer : Answer) : Bool :=
  match op with
  | .checked .getppidIsParent => answer.isOk == decide (f.getppid kin = kin.parent)
  | .checked .getppidUnchanged => answer.isOk == decide (f.getppid kin = kin.parent)
  | _ => true

/-- A call after which the effective ids of the child may be others. -/
def Call.setsCredentials : Call → Bool
  | .setresgid _ => true
  | .setresuid _ => true
  | _ => false

/-- The parent death signal behind an operation; `changed` says whether the call has
really changed the effective ids, which clears it. -/
def armedAfter (op : ChildOp) (answer : Answer) (changed armed : Bool) : Bool :=
  match op with
  | .checked .setParentDeathSignal => armed || answer.isOk
  | .checked call => armed && !(call.setsCredentials && answer.isOk && changed)
  | _ => armed

def ChildState.kill : ChildState → ChildState
  | .running _ _ => .killed
  | .exited => .exited
  | .killed => .killed

def Family.parentGone (f : Family) (killed : Bool) : Family :=
  { f with
    parentAlive := false
    world := { f.world with
      closed := true
      child := if killed then f.world.child.kill else f.world.child } }

inductive LifeMove where
  | child (answer : Answer) (changed : Bool)
  | parent (answer : Answer)
  /-- The parent dies, alone. -/
  | parentDies
  /-- `run_captured` kills the process group of the parent. -/
  | groupKilled
  deriving DecidableEq, Repr

/-- One system call, or the end of the parent. But for the two looks at the parent a call may be
answered in any way; what the kernel refuses is a condition on runs. -/
def lifeStep (kin : Kin) (f : Family) (move : LifeMove) : Option (Unit × Family) :=
  match move with
  | .child answer changed =>
    match f.world.child with
    | .running (op :: _) _ =>
      if f.truthful kin op answer then
        (childStep f.world answer).map fun w =>
          ((), { f with
            world := w
            armed := armedAfter op answer changed f.armed
            grouped := f.grouped && !(op = .checked .setpgid && answer.isOk) })
      else none
    | _ => none
  | .parent answer =>
    match f.parentAlive, f.world.parent with
    | true, .running (op :: _) _ =>
      (parentStep f.world answer).map fun w =>
        ((), { f with
          world := w
          grouped := f.grouped && !(op = .setpgid && answer.isOk) })
    | _, _ => none
  | .parentDies => if f.parentAlive then some ((), f.parentGone f.armed) else none
  | .groupKilled =>
    if f.parentAlive then some ((), f.parentGone (f.armed || f.grouped)) else none

/-! ## What the child has passed -/

/-- One of the operations has set the credentials of the child. -/
def CredentialsSet (passed : List ChildOp) : Prop :=
  ∃ call : Call, .checked call ∈ passed ∧ call.setsCredentials = true

theorem CredentialsSet.append {passed : List ChildOp} (h : CredentialsSet passed) (op : ChildOp) :
    CredentialsSet (passed ++ [op]) := by
  obtain ⟨call, hmem, hsets⟩ := h
  exact ⟨call, List.mem_append_left _ hmem, hsets⟩

/-- Unless the child has lost its signal by what it has passed, it is armed behind the
`prctl`, and its parent lives behind the second look. -/
structure FamilyInv (config : Config) (Lost : List ChildOp → Prop) (f : Family) : Prop where
  config_eq : f.world.config = config
  child : ∀ ops progress, f.world.child = .running ops progress →
    ∃ passed, childProgram config = passed ++ ops ∧
      (.checked .setParentDeathSignal ∈ passed → f.armed = true ∨ Lost passed) ∧
      (.checked .getppidUnchanged ∈ passed → f.armed = true ∧ f.parentAlive = true ∨
        Lost passed)

/-- The operations the child starts with. -/
theorem childProgram_front (config : Config) :
    ∃ rest, childProgram config =
      .checked .setpgid :: .checked .getppidIsParent :: .checked .setParentDeathSignal ::
        .checked .getppidUnchanged :: rest ∧ .checked .setParentDeathSignal ∉ rest := by
  simp only [childProgram, List.append_assoc, List.cons_append, List.nil_append]
  refine ⟨_, rfl, ?_⟩
  simp only [mountRuntimeFilesystems, setLimits, cleanEnvironment, mountPrivate, bindRoot,
    remountRootReadOnly, mountTmp, List.mem_append, List.mem_ite_nil_right, List.mem_cons,
    List.not_mem_nil, reduceCtorEq, and_false, or_self, ChildOp.checked.injEq,
    not_false_eq_true]

/-- The second look comes behind the `prctl`. -/
theorem armed_before_unchanged {config : Config} {passed ops : List ChildOp}
    (h : childProgram config = passed ++ .checked .getppidUnchanged :: ops) :
    .checked .setParentDeathSignal ∈ passed := by
  obtain ⟨rest, hfront, _⟩ := childProgram_front config
  rw [hfront] at h
  rcases passed with _ | ⟨a, _ | ⟨b, _ | ⟨c, passed⟩⟩⟩
  · simp at h
  · simp at h
  · simp at h
  · simp only [List.cons_append, List.cons.injEq] at h
    rw [h.2.2.1]
    simp

theorem credentials_of_childProgram {config : Config}
    (h : CredentialsSet (childProgram config)) : config.dropToUnprivilegedUser = true := by
  obtain ⟨call, hmem, hsets⟩ := h
  cases call <;> try cases hsets
  case setresgid id =>
    simp only [childProgram, mountRuntimeFilesystems, setLimits, cleanEnvironment, mountPrivate,
      bindRoot, remountRootReadOnly, mountTmp, List.mem_append, List.mem_ite_nil_right,
      List.mem_cons, List.not_mem_nil, or_false, reduceCtorEq, and_false, or_self, false_or,
      ChildOp.checked.injEq] at hmem
    exact hmem.1
  case setresuid id =>
    simp only [childProgram, mountRuntimeFilesystems, setLimits, cleanEnvironment, mountPrivate,
      bindRoot, remountRootReadOnly, mountTmp, List.mem_append, List.mem_ite_nil_right,
      List.mem_cons, List.not_mem_nil, or_false, reduceCtorEq, and_false, or_self, false_or,
      ChildOp.checked.injEq] at hmem
    exact hmem.1

/-! ## One step -/

section Steps

variable {kin : Kin} {config : Config} {Lost : List ChildOp → Prop} {f f' : Family} {u : Unit}

theorem getppid_eq_parent : f.getppid kin = kin.parent ↔ f.parentAlive = true := by
  rw [Family.getppid]
  split
  · rename_i halive
    exact ⟨fun _ => halive, fun _ => rfl⟩
  · rename_i hdead
    exact ⟨fun h => absurd h kin.distinct, fun h => absurd h hdead⟩

theorem lifeStep_child_cases {answer : Answer} {changed : Bool}
    (h : lifeStep kin f (.child answer changed) = some (u, f')) :
    ∃ op ops progress w, f.world.child = .running (op :: ops) progress ∧
      f.truthful kin op answer = true ∧ childStep f.world answer = some w ∧
      f' = { f with
        world := w
        armed := armedAfter op answer changed f.armed
        grouped := f.grouped && !(op = .checked .setpgid && answer.isOk) } := by
  rw [lifeStep.eq_def] at h
  dsimp only at h
  split at h
  · rename_i op ops progress hchild
    split at h
    · rename_i htruthful
      obtain ⟨w, hw, heq⟩ := Option.map_eq_some_iff.mp h
      cases heq
      exact ⟨op, ops, progress, w, hchild, htruthful, hw, rfl⟩
    · cases h
  · cases h

theorem lifeStep_parent_cases {answer : Answer}
    (h : lifeStep kin f (.parent answer) = some (u, f')) :
    f.parentAlive = true ∧ ∃ op ops progress w, f.world.parent = .running (op :: ops) progress ∧
      parentStep f.world answer = some w ∧
      f' = { f with
        world := w
        grouped := f.grouped && !(op = .setpgid && answer.isOk) } := by
  rw [lifeStep.eq_def] at h
  dsimp only at h
  split at h
  · rename_i op ops progress halive hparent
    obtain ⟨w, hw, heq⟩ := Option.map_eq_some_iff.mp h
    cases heq
    exact ⟨halive, op, ops, progress, w, hparent, hw, rfl⟩
  · cases h

/-- The child goes on working at its list of operations, or has got behind the first. -/
theorem childStep_ops {w w' : World} {answer : Answer} {op : ChildOp} {ops : List ChildOp}
    {progress : Progress} (h : childStep w answer = some w')
    (hchild : w.child = .running (op :: ops) progress) :
    w'.config = w.config ∧ ∀ ops' progress', w'.child = .running ops' progress' →
      ops' = op :: ops ∧ (∀ call, op ≠ .checked call) ∨
        ops' = ops ∧ (∀ call, op = .checked call → answer.isOk = true) := by
  obtain ⟨op', ops', progress', hchild', _, hcases⟩ := childStep_cases h
  rw [hchild] at hchild'
  cases hchild'
  rcases hcases with ⟨p, hstep, rfl⟩ | ⟨hstep, rfl⟩ | ⟨hstep, hignores, rfl⟩ | rfl
  · refine ⟨rfl, ?_⟩
    intro later q hrunning
    cases hrunning
    refine Or.inl ⟨rfl, ?_⟩
    rintro call rfl
    cases hstep
  · refine ⟨rfl, ?_⟩
    intro later q hrunning
    cases hrunning
    refine Or.inr ⟨rfl, ?_⟩
    rintro call rfl
    exact OpResult.finished.inj hstep
  · refine ⟨rfl, ?_⟩
    intro later q hrunning
    cases hrunning
    refine Or.inr ⟨rfl, ?_⟩
    rintro call rfl
    cases hignores
  · refine ⟨rfl, ?_⟩
    intro later q hrunning
    cases hrunning

theorem armedAfter_of_ne_checked {op : ChildOp} {answer : Answer} {changed armed : Bool}
    (hop : ∀ call, op ≠ .checked call) : armedAfter op answer changed armed = armed := by
  cases op with
  | checked call => exact absurd rfl (hop call)
  | unchecked call => rfl
  | writeFile path value => rfl
  | prepare path => rfl
  | awaitReady => rfl

/-- An armed child stays armed, or has just changed its credentials. -/
theorem armedAfter_true (op : ChildOp) (answer : Answer) (changed : Bool) :
    armedAfter op answer changed true = true ∨
      ∃ call : Call, op = .checked call ∧ call.setsCredentials = true ∧ answer.isOk = true ∧
        changed = true := by
  rw [armedAfter.eq_def]
  split
  · exact Or.inl rfl
  · rename_i call _
    by_cases hlost : (call.setsCredentials && answer.isOk && changed) = true
    · have hparts := hlost
      simp only [Bool.and_eq_true] at hparts
      exact Or.inr ⟨call, rfl, hparts.1.1, hparts.1.2, hparts.2⟩
    · exact Or.inl (by simp [hlost])
  · exact Or.inl rfl

theorem armedAfter_of_armed {op : ChildOp} {answer : Answer} {changed : Bool}
    (passed : List ChildOp) :
    armedAfter op answer changed true = true ∨ CredentialsSet (passed ++ [op]) := by
  rcases armedAfter_true op answer changed with harmed | ⟨call, rfl, hsets, _, _⟩
  · exact Or.inl harmed
  · exact Or.inr ⟨call, by simp, hsets⟩

/-- A child that is armed stays armed over the move, or has lost its signal by it. -/
def StaysArmed (config : Config) (Lost : List ChildOp → Prop) (f : Family) (move : LifeMove) :
    Prop :=
  ∀ {answer changed op ops progress passed}, move = .child answer changed →
    f.world.child = .running (op :: ops) progress → childProgram config = passed ++ op :: ops →
    armedAfter op answer changed true = true ∨ Lost (passed ++ [op])

theorem lifeStep_child_inv {answer : Answer} {changed : Bool} (hI : FamilyInv config Lost f)
    (hlost : ∀ passed op, Lost passed → Lost (passed ++ [op]))
    (hstays : StaysArmed config Lost f (.child answer changed))
    (h : lifeStep kin f (.child answer changed) = some (u, f')) : FamilyInv config Lost f' := by
  obtain ⟨op, ops, progress, w, hchild, htruthful, hstep, rfl⟩ := lifeStep_child_cases h
  obtain ⟨passed, hprogram, harmed, halive⟩ := hI.child _ _ hchild
  obtain ⟨hconfig, hops⟩ := childStep_ops hstep hchild
  refine ⟨hconfig.trans hI.config_eq, ?_⟩
  intro ops' progress' hrunning
  rcases hops _ _ hrunning with ⟨rfl, hop⟩ | ⟨rfl, hok⟩
  · rw [armedAfter_of_ne_checked hop]
    exact ⟨passed, hprogram, harmed, halive⟩
  -- what has held of the child before still does, unless it has just lost its signal
  have hstill : f.armed = true →
      armedAfter op answer changed f.armed = true ∨ Lost (passed ++ [op]) := by
    intro h
    rw [h]
    exact hstays rfl hchild hprogram
  refine ⟨passed ++ [op], by rw [hprogram, List.append_assoc, List.singleton_append], ?_, ?_⟩
  · intro hmem
    rcases List.mem_append.mp hmem with hmem | hmem
    · rcases harmed hmem with h | h
      · exact hstill h
      · exact Or.inr (hlost _ _ h)
    · obtain rfl : .checked .setParentDeathSignal = op := by simpa using hmem
      left
      show (f.armed || answer.isOk) = true
      rw [hok _ rfl, Bool.or_true]
  · intro hmem
    rcases List.mem_append.mp hmem with hmem | hmem
    · rcases halive hmem with ⟨h, hparent⟩ | h
      · rcases hstill h with h | h
        · exact Or.inl ⟨h, hparent⟩
        · exact Or.inr h
      · exact Or.inr (hlost _ _ h)
    · obtain rfl : .checked .getppidUnchanged = op := by simpa using hmem
      have hparent : f.parentAlive = true := by
        have hlook := hok _ rfl
        simp only [Family.truthful, hlook, beq_iff_eq] at htruthful
        exact getppid_eq_parent.mp (of_decide_eq_true htruthful.symm)
      rcases harmed (armed_before_unchanged hprogram) with h | h
      · exact Or.inl ⟨by rw [h]; rfl, hparent⟩
      · exact Or.inr (hlost _ _ h)

theorem parentStep_child {w w' : World} {answer : Answer} (h : parentStep w answer = some w') :
    w'.config = w.config ∧ (w'.child = w.child ∨ w'.child = .killed) := by
  obtain ⟨op, ops, progress, effects, _, hcases⟩ := parentStep_cases h
  rcases hcases with ⟨p, _, rfl⟩ | ⟨_, rfl⟩ | rfl
  · exact ⟨rfl, Or.inl rfl⟩
  · exact ⟨rfl, Or.inl rfl⟩
  · exact ⟨rfl, Or.inr rfl⟩

/-- A child that runs on has not been killed with its parent. -/
theorem running_parentGone {killed : Bool} {ops : List ChildOp} {progress : Progress}
    (h : (f.parentGone killed).world.child = .running ops progress) :
    killed = false ∧ f.world.child = .running ops progress := by
  cases killed with
  | true =>
    simp only [Family.parentGone, if_true] at h
    cases hc : f.world.child <;> (rw [hc] at h; cases h)
  | false => exact ⟨rfl, h⟩

theorem parentGone_inv {killed : Bool} (hI : FamilyInv config Lost f)
    (hkilled : f.armed = true → killed = true) :
    FamilyInv config Lost (f.parentGone killed) := by
  refine ⟨hI.config_eq, ?_⟩
  intro ops progress hrunning
  obtain ⟨rfl, hchild⟩ := running_parentGone hrunning
  obtain ⟨passed, hprogram, harmed, halive⟩ := hI.child ops progress hchild
  refine ⟨passed, hprogram, harmed, ?_⟩
  intro hmem
  rcases halive hmem with ⟨h, _⟩ | h
  · cases hkilled h
  · exact Or.inr h

theorem lifeStep_inv {move : LifeMove} (hI : FamilyInv config Lost f)
    (hlost : ∀ passed op, Lost passed → Lost (passed ++ [op]))
    (hstays : StaysArmed config Lost f move) (h : lifeStep kin f move = some (u, f')) :
    FamilyInv config Lost f' := by
  cases move with
  | child answer changed => exact lifeStep_child_inv hI hlost hstays h
  | parent answer =>
    obtain ⟨_, op, ops, progress, w, _, hstep, rfl⟩ := lifeStep_parent_cases h
    obtain ⟨hconfig, hchild⟩ := parentStep_child hstep
    refine ⟨hconfig.trans hI.config_eq, ?_⟩
    intro ops' progress' hrunning
    rcases hchild with hsame | hkilled
    · exact hI.child _ _ (hsame.symm.trans hrunning)
    · cases hkilled.symm.trans hrunning
  | parentDies =>
    simp only [lifeStep, Option.ite_none_right_eq_some, Option.some.injEq, Prod.mk.injEq] at h
    rw [← h.2.2]
    exact parentGone_inv hI fun harmed => harmed
  | groupKilled =>
    simp only [lifeStep, Option.ite_none_right_eq_some, Option.some.injEq, Prod.mk.injEq] at h
    rw [← h.2.2]
    exact parentGone_inv hI fun harmed => by rw [harmed, Bool.true_or]

theorem launch_familyInv {host : Host} {ids : Ids} {pipe fork : Bool} {w : World}
    (h : launch host config ids pipe fork = some w) : FamilyInv config Lost { world := w } := by
  obtain ⟨_, rfl⟩ := launch_eq h
  refine ⟨rfl, ?_⟩
  intro ops progress hrunning
  cases hrunning
  exact ⟨[], rfl, by simp, by simp⟩

/-- Whatever happens, nothing but set credentials loses the signal. -/
theorem familyInv_of_run {host : Host} {ids : Ids} {pipe fork : Bool} {w : World}
    {moves : List LifeMove} {outputs : List Unit}
    (hlaunch : launch host config ids pipe fork = some w)
    (hrun : Machine.run (lifeStep kin) { world := w } moves = some (outputs, f)) :
    FamilyInv config CredentialsSet f :=
  Machine.run_invariant (FamilyInv config CredentialsSet)
    (fun _ _ _ _ hI hstep => lifeStep_inv hI (fun _ op hset => hset.append op)
      (fun _ _ _ => armedAfter_of_armed _) hstep)
    (launch_familyInv hlaunch) hrun

/-- Credentials are set only for a target that is to run as an unprivileged user. -/
theorem not_credentialsSet {passed ops : List ChildOp}
    (hdrop : config.dropToUnprivilegedUser = false) (hprogram : childProgram config = passed ++ ops) :
    ¬ CredentialsSet passed := by
  rintro ⟨call, hcall, hsets⟩
  have hcredentials : CredentialsSet (childProgram config) :=
    ⟨call, hprogram ▸ List.mem_append_left _ hcall, hsets⟩
  rw [credentials_of_childProgram hcredentials] at hdrop
  cases hdrop

/-- What an orphan has not passed, unless it has lost its signal. -/
theorem orphan_ops (hI : FamilyInv config Lost f) (hdead : f.parentAlive = false)
    {ops : List ChildOp} {progress : Progress} (hchild : f.world.child = .running ops progress)
    (hkept : ∀ passed, childProgram config = passed ++ ops → ¬ Lost passed) :
    .checked .getppidUnchanged ∈ ops := by
  obtain ⟨passed, hprogram, _, halive⟩ := hI.child ops progress hchild
  have hmem : .checked .getppidUnchanged ∈ passed ++ ops := by
    obtain ⟨rest, hfront, _⟩ := childProgram_front config
    rw [← hprogram, hfront]
    simp
  rcases List.mem_append.mp hmem with hpassed | hops
  · rcases halive hpassed with ⟨_, hparent⟩ | hlost
    · rw [hdead] at hparent
      cases hparent
    · exact absurd hlost (hkept passed hprogram)
  · exact hops

end Steps

/-! ## Whole runs -/

/-- However the two processes interleave and whenever the parent dies, a child that runs on
without its parent has not got past the second look of `set_parent_death_signal`, and so
has not entered one namespace and has not mounted one file system. -/
theorem orphan_before_second_look {host : Host} {config : Config} {ids : Ids} {pipe fork : Bool}
    {w : World} {kin : Kin} {moves : List LifeMove} {outputs : List Unit} {f : Family}
    (hlaunch : launch host config ids pipe fork = some w)
    (hdrop : config.dropToUnprivilegedUser = false)
    (hrun : Machine.run (lifeStep kin) { world := w } moves = some (outputs, f))
    (hdead : f.parentAlive = false) {ops : List ChildOp} {progress : Progress}
    (hchild : f.world.child = .running ops progress) : .checked .getppidUnchanged ∈ ops := by
  have hI : FamilyInv config CredentialsSet f := familyInv_of_run hlaunch hrun
  exact orphan_ops hI hdead hchild fun _ hprogram => not_credentialsSet hdrop hprogram

def launchKin : Kin := { parent := 4241, reaper := 1, distinct := by decide }

/-- The parent dies between the two looks of a child that has not asked for its signal. -/
def earlyDeathMoves : List LifeMove :=
  [.child (.ok 0) false, .child (.ok 0) false, .parent (.ok 0), .parentDies]

theorem orphan_before_second_look_early :
    ∃ w f outputs ops progress, launch {} {} launchIds true true = some w ∧
      Machine.run (lifeStep launchKin) { world := w } earlyDeathMoves = some (outputs, f) ∧
      f.world.child = .running ops progress ∧ .checked .getppidUnchanged ∈ ops := by
  let start : World :=
    { config := {}, ids := launchIds, child := .running (childProgram {}) .start,
      parent := .running (parentProgram {} launchIds) ParentOp.setpgid.start }
  have hlaunch : launch {} {} launchIds true true = some start := by decide
  have hrun : Machine.run (lifeStep launchKin) { world := start } earlyDeathMoves =
      some ([(), (), (), ()],
        { world := { start with
            child := .running ((childProgram {}).drop 2) .start
            parent := .running [.mapIds, .signalReady, .closeReady] ParentOp.mapIds.start
            closed := true
            done := [.called .setpgid, .called .getppidIsParent] }
          parentAlive := false
          grouped := false }) := by
    decide
  exact ⟨_, _, _, _, _, hlaunch, hrun, rfl, orphan_before_second_look hlaunch rfl hrun rfl rfl⟩

end ExeCell.Sandbox
