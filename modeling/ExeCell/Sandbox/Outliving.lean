import ExeCell.Sandbox.OwnFilter
import ExeCell.Sandbox.ParentDeath

/-!
# A target that outlives its parent

The last thing but one that the child of `sandbox::run` does is to give up its user. The
change of the credentials clears the signal that the first thing has asked for, so that a
target that runs as an unprivileged user can outlive its parent. It cannot always: the kernel
has to let the child change its ids in the first place.

* With a user namespace `setup_user_namespace` asks for one id of the host twice, for user 0
  and for user 1000. The kernel installs no such map, neither for the helpers nor for the
  parent, and the parent then kills the child.
* Behind `drop_capabilities` the child may only set the ids that it already has, which
  changes nothing. (A program that is installed set-user-id has others to choose from; this
  one is not.)
* A filter has to let the calls through that the child makes behind it.

`Grants` states these rules, and `outlives_iff` says for which configurations some run that
keeps to them ends with the parent dead and the child at the start of its target.
-/

namespace ExeCell.Sandbox

/-! ## What the kernel grants -/

/-- The answers that leave a map unwritten. -/
def refusesMap : IdProgress → Answer → Bool
  | .waitUid, answer => !helperSucceeded answer
  | .waitGid, answer => !helperSucceeded answer
  | .writeUid (.writing _), answer => !answer.isOk
  | .writeGid (.writing _), answer => !answer.isOk
  | _, _ => true

/-- The system call of the setup that the move makes. -/
def LifeMove.setup : LifeMove → Option Move
  | .child answer _ => some (.child answer)
  | .parent answer => some (.parent answer)
  | .parentDies => none
  | .groupKilled => none

/-- The kernel answers the move by its rules. -/
structure Grants (prlimit : Bool) (f : Family) (move : LifeMove) : Prop where
  /-- No map holds one id of the host twice. -/
  maps : ∀ answer ops progress, move = .parent answer →
    f.world.parent = .running (.mapIds :: ops) (.ids progress) →
    f.world.config.dropToUnprivilegedUser = true → refusesMap progress answer = true
  /-- Capabilities can always be given up. -/
  capset : ∀ answer changed ops progress, move = .child answer changed →
    f.world.child = .running (.unchecked .capset :: ops) progress → answer.isOk = true
  /-- A child without capabilities keeps the ids that it has. -/
  ids : ∀ answer changed call ops progress, move = .child answer changed →
    f.world.child = .running (.checked call :: ops) progress → call.setsCredentials = true →
    .called .capset ∈ f.world.done → answer.isOk = true → changed = false
  obeys : ∀ m, move.setup = some m → Obeys prlimit f.world m

/-- Some run of the two processes that the kernel answers by its rules ends with the parent
dead and the child at the start of its target. -/
def Outlives (prlimit : Bool) (kin : Kin) (w : World) : Prop :=
  ∃ moves outputs f, Machine.Along (lifeStep kin) (Grants prlimit) { world := w } moves ∧
    Machine.run (lifeStep kin) { world := w } moves = some (outputs, f) ∧
    f.parentAlive = false ∧ f.world.AtTarget

/-! ## The setup inside the larger machine -/

section Keeps

variable {kin : Kin} {config : Config} {prlimit : Bool} {f f' : Family} {move : LifeMove} {u : Unit}

/-- Every move makes a call of the setup, or is the end of the parent. -/
theorem lifeStep_setup (h : lifeStep kin f move = some (u, f')) :
    (∃ m, move.setup = some m ∧ setupStep f.world m = some ((), f'.world)) ∨
      (move.setup = none ∧ ∃ killed, f' = f.parentGone killed) := by
  cases move with
  | child answer changed =>
    obtain ⟨op, ops, progress, w, _, _, hstep, rfl⟩ := lifeStep_child_cases h
    exact Or.inl ⟨.child answer, rfl, by simp only [setupStep, hstep, Option.map_some]⟩
  | parent answer =>
    obtain ⟨_, op, ops, progress, w, _, hstep, rfl⟩ := lifeStep_parent_cases h
    exact Or.inl ⟨.parent answer, rfl, by simp only [setupStep, hstep, Option.map_some]⟩
  | parentDies =>
    simp only [lifeStep, Option.ite_none_right_eq_some, Option.some.injEq, Prod.mk.injEq] at h
    exact Or.inr ⟨rfl, _, h.2.2.symm⟩
  | groupKilled =>
    simp only [lifeStep, Option.ite_none_right_eq_some, Option.some.injEq, Prod.mk.injEq] at h
    exact Or.inr ⟨rfl, _, h.2.2.symm⟩

theorem lifeStep_inOrder (hI : InOrder config f.world) (h : lifeStep kin f move = some (u, f')) :
    InOrder config f'.world := by
  rcases lifeStep_setup h with ⟨m, _, hstep⟩ | ⟨_, killed, rfl⟩
  · exact setupStep_inOrder hI hstep
  · exact ⟨hI.config_eq, fun ops p hchild => hI.child ops p (running_parentGone hchild).2⟩

theorem lifeStep_letThrough (hlist : config.seccompAllowlist ≠ [])
    (hI : LetThrough prlimit config f.world) (hgrants : Grants prlimit f move)
    (h : lifeStep kin f move = some (u, f')) : LetThrough prlimit config f'.world := by
  rcases lifeStep_setup h with ⟨m, hm, hstep⟩ | ⟨_, killed, rfl⟩
  · exact setupStep_letThrough hlist hI (hgrants.obeys m hm) hstep
  · exact
      { config_eq := hI.config_eq
        child := fun ops p hchild => hI.child ops p (running_parentGone hchild).2
        installed := fun ops p hchild => hI.installed ops p (running_parentGone hchild).2
        allowed := fun ops p hchild => hI.allowed ops p (running_parentGone hchild).2 }

end Keeps

/-! ## With a user namespace -/

/-- The map of the user ids has been written. -/
def IdProgress.mapped : IdProgress → Bool
  | .forkGid => true
  | .waitGid => true
  | .writeUid (.closing true) => true
  | .writeGid _ => true
  | _ => false

section Unmapped

variable {kin : Kin} {config : Config} {ids : Ids} {prlimit : Bool} {f f' : Family}
  {move : LifeMove} {answer : Answer} {u : Unit}

theorem idMapping_ne_nil : idMapping config ids ≠ [] := by
  simp [idMapping]

/-- A write that the kernel refuses does not get to a successful end. -/
theorem writeFileStep_of_refused {value : Text} {progress : Progress} (hvalue : value ≠ [])
    (hprogress : progress ≠ .closing true)
    (hrefuses : refusesMap (.writeUid progress) answer = true) :
    writeFileStep value progress answer ≠ .finished true ∧
      writeFileStep value progress answer ≠ .running (.closing true) := by
  cases progress with
  | start => cases answer <;> simp [writeFileStep, hvalue]
  | writing offset =>
    cases answer with
    | ok written => cases hrefuses
    | fail error => by_cases h : error = eintr <;> simp [writeFileStep, h]
  | closing ok =>
    cases ok with
    | true => exact absurd rfl hprogress
    | false => cases answer <;> simp [writeFileStep]
  | creating => simp [writeFileStep]

/-- While the kernel refuses the maps, `setup_user_namespace` does not get behind the first. -/
theorem mapIdsStep_unmapped {progress : IdProgress} (hbefore : progress.mapped = false)
    (hrefuses : refusesMap progress answer = true) :
    (∀ effects, mapIdsStep config ids progress answer ≠ .finished true effects) ∧
      ∀ next effects, mapIdsStep config ids progress answer = .running next effects →
        ∃ later, next = .ids later ∧ later.mapped = false := by
  cases progress with
  | forkUid => cases answer <;> simp [mapIdsStep, IdProgress.mapped]
  | forkGid => cases hbefore
  | waitGid => cases hbefore
  | writeGid progress => cases hbefore
  | waitUid =>
    have hfailed : helperSucceeded answer = false := by simpa [refusesMap] using hrefuses
    simp [mapIdsStep, hfailed, IdProgress.mapped]
  | writeUid progress =>
    have hprogress : progress ≠ .closing true := by
      rintro rfl
      cases hbefore
    obtain ⟨hfinished, hclosing⟩ :=
      writeFileStep_of_refused (@idMapping_ne_nil config ids) hprogress hrefuses
    rw [mapIdsStep, writeMap]
    cases hstep : writeFileStep (idMapping config ids) progress answer with
    | running later =>
      refine ⟨fun effects h => ParentResult.noConfusion h, ?_⟩
      intro next effects h
      cases h
      refine ⟨_, rfl, ?_⟩
      cases later with
      | closing ok =>
        cases ok with
        | true => exact absurd hstep hclosing
        | false => rfl
      | _ => rfl
    | finished ok =>
      cases ok with
      | true => exact absurd hstep hfinished
      | false => simp

/-- The parent has not written the maps and has not sent the byte, for which the child still
waits. -/
structure Unmapped (w : World) : Prop where
  ready : w.ready = false
  child : ∀ ops progress, w.child = .running ops progress → .awaitReady ∈ ops
  parent : ∀ ops progress, w.parent = .running ops progress →
    ∃ before, ops = before ++ [.mapIds, .signalReady, .closeReady] ∧
      (∀ op ∈ before, op ≠ .mapIds ∧ op ≠ .signalReady) ∧
      (before = [] → ∃ position, progress = .ids position ∧ position.mapped = false)

theorem launch_unmapped {host : Host} {pipe fork : Bool} {w : World}
    (huser : config.userNamespace = true) (h : launch host config ids pipe fork = some w) :
    Unmapped w := by
  obtain ⟨_, rfl⟩ := launch_eq h
  refine ⟨rfl, ?_, ?_⟩
  · intro ops progress hchild
    cases hchild
    simp [childProgram, huser]
  · intro ops progress hparent
    cases hparent
    refine ⟨.setpgid :: configureCgroup config.cgroup ids, ?_, ?_, ?_⟩
    · simp [parentProgram, parentSetup, huser]
    · intro op hop
      rcases List.mem_cons.mp hop with rfl | hop
      · simp
      · obtain ⟨path, value, rfl⟩ := mem_configureCgroup hop
        simp
    · intro h
      cases h

theorem childStep_unmapped {w w' : World} (hU : Unmapped w) (h : childStep w answer = some w') :
    Unmapped w' := by
  obtain ⟨op, ops, p, hchild, hread, hcases⟩ := childStep_cases h
  have hahead : .awaitReady ∈ op :: ops := hU.child _ _ hchild
  have hlater : op ≠ .awaitReady → .awaitReady ∈ ops := by
    intro hop
    rcases List.mem_cons.mp hahead with rfl | hmem
    · exact absurd rfl hop
    · exact hmem
  rcases hcases with ⟨q, _, rfl⟩ | ⟨hstep, rfl⟩ | ⟨_, hignores, rfl⟩ | rfl
  · refine ⟨hU.ready, ?_, hU.parent⟩
    intro ops' progress hrunning
    cases hrunning
    exact hahead
  · refine ⟨hU.ready, ?_, hU.parent⟩
    intro ops' progress hrunning
    cases hrunning
    apply hlater
    rintro rfl
    -- the byte that the child would have read has not been sent
    have hanswer : answer = .ok 1 := by simpa [ChildOp.step] using hstep
    subst hanswer
    have hready : w.ready = true := hread
    rw [hU.ready] at hready
    cases hready
  · refine ⟨hU.ready, ?_, hU.parent⟩
    intro ops' progress hrunning
    cases hrunning
    apply hlater
    rintro rfl
    cases hignores
  · refine ⟨hU.ready, ?_, hU.parent⟩
    intro ops' progress hrunning
    cases hrunning

theorem parentStep_unmapped {w w' : World} (hU : Unmapped w)
    (hrefuses : ∀ ops progress, w.parent = .running (.mapIds :: ops) (.ids progress) →
      refusesMap progress answer = true)
    (h : parentStep w answer = some w') : Unmapped w' := by
  obtain ⟨op, ops, p, effects, hparent, hcases⟩ := parentStep_cases h
  obtain ⟨before, hops, hbefore, hhead⟩ := hU.parent _ _ hparent
  rcases hcases with ⟨next, hstep, rfl⟩ | ⟨hstep, rfl⟩ | rfl
  · refine ⟨hU.ready, hU.child, ?_⟩
    intro ops' progress hrunning
    cases hrunning
    refine ⟨before, hops, hbefore, ?_⟩
    rintro rfl
    obtain ⟨rfl, rfl⟩ := List.cons.inj hops
    obtain ⟨position, rfl, hunmapped⟩ := hhead rfl
    exact (mapIdsStep_unmapped hunmapped (hrefuses _ _ hparent)).2 _ _ hstep
  · cases before with
    | nil =>
      obtain ⟨rfl, rfl⟩ := List.cons.inj hops
      obtain ⟨position, rfl, hunmapped⟩ := hhead rfl
      exact absurd hstep ((mapIdsStep_unmapped hunmapped (hrefuses _ _ hparent)).1 _)
    | cons first before =>
      obtain ⟨rfl, rfl⟩ := List.cons.inj hops
      have hsignal : op ≠ .signalReady := (hbefore op List.mem_cons_self).2
      refine ⟨by simp [hU.ready, hsignal], hU.child, ?_⟩
      intro ops' progress hrunning
      cases hrunning
      refine ⟨before, rfl, fun op hop => hbefore op (List.mem_cons_of_mem _ hop), ?_⟩
      rintro rfl
      exact ⟨.forkUid, rfl, rfl⟩
  · refine ⟨hU.ready, ?_, ?_⟩
    · intro ops' progress hrunning
      cases hrunning
    · intro ops' progress hrunning
      cases hrunning

theorem lifeStep_unmapped (hdrop : f.world.config.dropToUnprivilegedUser = true)
    (hU : Unmapped f.world) (hgrants : Grants prlimit f move)
    (h : lifeStep kin f move = some (u, f')) : Unmapped f'.world := by
  rcases lifeStep_setup h with ⟨m, hm, hstep⟩ | ⟨_, killed, rfl⟩
  · cases move with
    | child answer changed =>
      cases hm
      obtain ⟨v, hv, heq⟩ := Option.map_eq_some_iff.mp hstep
      rw [← (Prod.mk.inj heq).2]
      exact childStep_unmapped hU hv
    | parent answer =>
      cases hm
      obtain ⟨v, hv, heq⟩ := Option.map_eq_some_iff.mp hstep
      rw [← (Prod.mk.inj heq).2]
      refine parentStep_unmapped hU ?_ hv
      intro ops progress hparent
      exact hgrants.maps answer ops progress rfl hparent hdrop
    | parentDies => cases hm
    | groupKilled => cases hm
  · exact ⟨hU.ready, fun ops p hchild => hU.child ops p (running_parentGone hchild).2, hU.parent⟩

end Unmapped

/-! ## Behind `drop_capabilities` -/

section Dropped

variable {kin : Kin} {config : Config} {prlimit : Bool} {f f' : Family} {move : LifeMove} {u : Unit}

/-- The program of the child around `drop_capabilities`. -/
theorem childProgram_capset (h : config.dropCapabilities = true) :
    ∃ front rest, childProgram config = front ++ [.unchecked .capset] ++ rest ∧
      ∀ op ∈ front, ∀ call, op = .checked call → call.setsCredentials = false := by
  refine ⟨?front, ?rest, ?around, ?none⟩
  case around =>
    rw [childProgram, if_pos h, List.append_assoc, List.append_assoc, List.append_assoc,
      List.append_assoc]
  case none =>
    simp only [mountRuntimeFilesystems, mountPrivate, bindRoot, remountRootReadOnly, mountTmp,
      List.forall_mem_append, forall_mem_ite_nil, List.forall_mem_cons, List.not_mem_nil,
      ChildOp.checked.injEq, forall_eq', Call.setsCredentials, reduceCtorEq, false_imp_iff,
      implies_true, and_true]

/-- A child that is about to set its credentials has given up its capabilities before. -/
theorem capset_before_credentials {passed ops : List ChildOp} {call : Call}
    (hdrop : config.dropCapabilities = true)
    (hprogram : childProgram config = passed ++ .checked call :: ops)
    (hsets : call.setsCredentials = true) : .unchecked .capset ∈ passed := by
  obtain ⟨front, rest, haround, hfront⟩ := childProgram_capset hdrop
  rw [hprogram] at haround
  have hlast : .unchecked .capset ∈ front ++ [.unchecked .capset] :=
    List.mem_append_right _ (List.mem_singleton_self _)
  rcases List.append_eq_append_iff.mp haround with ⟨between, hfirst, hops⟩ | ⟨between, hfirst, _⟩
  · cases between with
    | nil =>
      rw [List.append_nil] at hfirst
      rwa [← hfirst]
    | cons op between =>
      -- the call would come before the capabilities are given up
      obtain ⟨rfl, _⟩ := List.cons.inj hops
      have hmem : .checked call ∈ front ++ [.unchecked .capset] := by
        rw [hfirst]
        exact List.mem_append_right _ List.mem_cons_self
      rcases List.mem_append.mp hmem with hmem | hmem
      · rw [hfront _ hmem call rfl] at hsets
        cases hsets
      · cases List.mem_singleton.mp hmem
  · rw [hfirst]
    exact List.mem_append_left _ hlast

/-- The capabilities are gone once the child has given them up. -/
def CapsetInv (config : Config) (w : World) : Prop :=
  ∀ ops progress, w.child = .running ops progress →
    ∃ passed, childProgram config = passed ++ ops ∧
      (.unchecked .capset ∈ passed → .called .capset ∈ w.done)

theorem launch_capset {host : Host} {ids : Ids} {pipe fork : Bool} {w : World}
    (h : launch host config ids pipe fork = some w) : CapsetInv config w := by
  obtain ⟨_, rfl⟩ := launch_eq h
  intro ops progress hchild
  cases hchild
  exact ⟨[], rfl, fun hmem => nomatch hmem⟩

theorem lifeStep_capset (hC : CapsetInv config f.world) (hgrants : Grants prlimit f move)
    (h : lifeStep kin f move = some (u, f')) : CapsetInv config f'.world := by
  rcases lifeStep_setup h with ⟨m, hm, hstep⟩ | ⟨_, killed, rfl⟩
  · intro ops progress hchild
    cases setupStep_moves hstep hchild with
    | stays p hbefore hkept _ =>
      obtain ⟨passed, hprogram, hgone⟩ := hC ops p hbefore
      exact ⟨passed, hprogram, fun hmem => hkept (hgone hmem)⟩
    | passes op p hbefore hkept _ _ hunchecked =>
      obtain ⟨passed, hprogram, hgone⟩ := hC (op :: ops) p hbefore
      refine ⟨passed ++ [op], by rw [hprogram, List.append_assoc, List.singleton_append], ?_⟩
      intro hmem
      rcases List.mem_append.mp hmem with hmem | hmem
      · exact hkept (hgone hmem)
      · obtain rfl : .unchecked .capset = op := by simpa using hmem
        obtain ⟨answer, rfl, hdone⟩ := hunchecked _ rfl
        cases move with
        | child answer changed =>
          cases hm
          exact hdone (hgrants.capset answer changed ops p rfl hbefore)
        | parent answer => cases hm
        | parentDies => cases hm
        | groupKilled => cases hm
  · exact fun ops p hchild => hC ops p (running_parentGone hchild).2

/-- A child that has given up its capabilities stays armed. -/
theorem staysArmed_of_capset (hdrop : config.dropCapabilities = true)
    (hC : CapsetInv config f.world) (hgrants : Grants prlimit f move) :
    StaysArmed config (fun _ => False) f move := by
  intro answer changed op ops progress passed hmove hchild hprogram
  rcases armedAfter_true op answer changed with harmed | ⟨call, rfl, hsets, hok, hchanged⟩
  · exact Or.inl harmed
  obtain ⟨passed', hprogram', hgone⟩ := hC _ _ hchild
  have hsame : passed' = passed := List.append_cancel_right (hprogram'.symm.trans hprogram)
  have hdone : .called .capset ∈ f.world.done :=
    hgone (hsame ▸ capset_before_credentials hdrop hprogram hsets)
  rw [hgrants.ids answer changed call ops progress hmove hchild hsets hdone hok] at hchanged
  cases hchanged

end Dropped

/-! ## A child that has lost its signal -/

/-- The move of the larger machine for a move of the setup; ids that are set are changed. -/
def Move.raise : Move → LifeMove
  | .child answer => .child answer true
  | .parent answer => .parent answer

/-- A call that succeeds, of two processes of which none dies. -/
def QuietLife (move : LifeMove) : Prop := ∃ m : Move, m.isOk = true ∧ move = m.raise

section Lift

variable {kin : Kin} {config : Config} {f : Family} {w : World}

/-- A successful call of the setup is one of the larger machine while the parent lives. -/
theorem lifeStep_raise (kin : Kin) {move : Move} {u : Unit} (halive : f.parentAlive = true)
    (hok : move.isOk = true) (h : setupStep f.world move = some (u, w)) :
    ∃ f', lifeStep kin f move.raise = some ((), f') ∧ f'.world = w ∧ f'.parentAlive = true := by
  cases move with
  | child answer =>
    obtain ⟨v, hv, heq⟩ := Option.map_eq_some_iff.mp h
    cases heq
    obtain ⟨op, ops, progress, hchild, _, _⟩ := childStep_cases hv
    have hparent : f.getppid kin = kin.parent := getppid_eq_parent.mpr halive
    have htruthful : f.truthful kin op answer = true := by
      have hanswer : answer.isOk = true := hok
      rw [Family.truthful.eq_def]
      split <;> simp [hanswer, hparent]
    have hstep : lifeStep kin f (.child answer true) =
        some ((), { f with
          world := w
          armed := armedAfter op answer true f.armed
          grouped := f.grouped && !(op = .checked .setpgid && answer.isOk) }) := by
      simp only [lifeStep, hchild, htruthful, if_true, hv, Option.map_some]
    exact ⟨_, hstep, rfl, halive⟩
  | parent answer =>
    obtain ⟨v, hv, heq⟩ := Option.map_eq_some_iff.mp h
    cases heq
    obtain ⟨op, ops, progress, effects, hparent, _⟩ := parentStep_cases hv
    have hstep : lifeStep kin f (.parent answer) =
        some ((), { f with
          world := w
          grouped := f.grouped && !(op = .setpgid && answer.isOk) }) := by
      simp only [lifeStep, halive, hparent, hv, Option.map_some]
    exact ⟨_, hstep, rfl, halive⟩

theorem reaches_raise (kin : Kin) {v : World} (h : Succeeds w v) (hw : f.world = w)
    (halive : f.parentAlive = true) :
    ∃ f', Machine.Reaches (lifeStep kin) QuietLife f f' ∧ f'.world = v ∧
      f'.parentAlive = true := by
  obtain ⟨moves, outputs, hok, hrun⟩ := h
  induction moves generalizing w f outputs with
  | nil =>
    simp only [Machine.run_nil, Option.some.injEq, Prod.mk.injEq] at hrun
    exact ⟨f, .refl f, hw.trans hrun.2, halive⟩
  | cons move moves ih =>
    obtain ⟨u, x, os, hx, hrest, rfl⟩ := Machine.run_cons.mp hrun
    subst hw
    have hmove : move.isOk = true := hok move List.mem_cons_self
    obtain ⟨f₁, hstep, hworld, halive₁⟩ := lifeStep_raise kin halive hmove hx
    obtain ⟨f₂, hreaches, hv, halive₂⟩ := ih hworld halive₁ os
      (fun m hm => hok m (List.mem_cons_of_mem _ hm)) hrest
    exact ⟨f₂, .head ⟨move, hmove, rfl⟩ hstep hreaches, hv, halive₂⟩

/-- Nothing but the two first operations comes before the `prctl`. -/
theorem before_setParentDeathSignal {config : Config} {passed ops : List ChildOp}
    (h : childProgram config = passed ++ .checked .setParentDeathSignal :: ops) :
    passed = [.checked .setpgid, .checked .getppidIsParent] := by
  obtain ⟨rest, hfront, hrest⟩ := childProgram_front config
  rw [hfront] at h
  rcases passed with _ | ⟨a, _ | ⟨b, _ | ⟨c, _ | ⟨d, passed⟩⟩⟩⟩
  · simp at h
  · simp at h
  · simp only [List.cons_append, List.nil_append, List.cons.injEq] at h
    rw [← h.1, ← h.2.1]
  · simp at h
  · simp only [List.cons_append, List.cons.injEq] at h
    rw [h.2.2.2.2] at hrest
    simp at hrest

/-- Nothing but the `prctl` arms the child. -/
theorem armedAfter_of_not_armed {op : ChildOp} {answer : Answer} {changed : Bool}
    (hop : op ≠ .checked .setParentDeathSignal) :
    armedAfter op answer changed false = false := by
  rw [armedAfter.eq_def]
  split
  · exact absurd rfl hop
  · rfl
  · rfl

/-- Credentials that have been set, and are others now, disarm the child. -/
theorem armedAfter_of_sets {call : Call} {answer : Answer} {armed : Bool}
    (hsets : call.setsCredentials = true) (hok : answer.isOk = true) :
    armedAfter (.checked call) answer true armed = false := by
  cases call with
  | setresgid id => simp [armedAfter, Call.setsCredentials, hok]
  | setresuid id => simp [armedAfter, Call.setsCredentials, hok]
  | _ => cases hsets

/-- The child has lost its signal once it has set its credentials. -/
def Disarmed (config : Config) (f : Family) : Prop :=
  ∀ ops progress, f.world.child = .running ops progress →
    ∃ passed, childProgram config = passed ++ ops ∧ (CredentialsSet passed → f.armed = false)

theorem disarmed_step {f' : Family} {move : LifeMove} {u : Unit} (hD : Disarmed config f)
    (hquiet : QuietLife move) (h : lifeStep kin f move = some (u, f')) : Disarmed config f' := by
  obtain ⟨m, hok, rfl⟩ := hquiet
  cases m with
  | child answer =>
    obtain ⟨op, ops, progress, w, hchild, _, hstep, rfl⟩ := lifeStep_child_cases h
    obtain ⟨passed, hprogram, hlost⟩ := hD _ _ hchild
    intro ops' progress' hrunning
    rcases (childStep_ops hstep hchild).2 _ _ hrunning with ⟨rfl, hop⟩ | ⟨rfl, _⟩
    · rw [armedAfter_of_ne_checked hop]
      exact ⟨passed, hprogram, hlost⟩
    refine ⟨passed ++ [op], by rw [hprogram, List.append_assoc, List.singleton_append], ?_⟩
    rintro ⟨call, hmem, hsets⟩
    rcases List.mem_append.mp hmem with hbefore | hlast
    · -- it has been lost before, and it is not asked for again
      have harmed : f.armed = false := hlost ⟨call, hbefore, hsets⟩
      have hop : op ≠ .checked .setParentDeathSignal := by
        rintro rfl
        rw [before_setParentDeathSignal hprogram] at hbefore
        rcases List.mem_pair.mp hbefore with heq | heq <;> (cases heq; cases hsets)
      show armedAfter op answer true f.armed = false
      rw [harmed]
      exact armedAfter_of_not_armed hop
    · obtain rfl : .checked call = op := by simpa using hlast
      exact armedAfter_of_sets hsets hok
  | parent answer =>
    obtain ⟨_, op, ops, progress, w, _, hstep, rfl⟩ := lifeStep_parent_cases h
    intro ops' progress' hrunning
    rcases (parentStep_child hstep).2 with hsame | hkilled
    · exact hD _ _ (hsame.symm.trans hrunning)
    · cases hkilled.symm.trans hrunning

end Lift

/-! ## A child that keeps its capabilities -/

section Unguarded

variable {kin : Kin} {config : Config} {prlimit : Bool} {f f' : Family} {move : LifeMove} {u : Unit}

theorem setresgid_mem_childProgram {config : Config}
    (h : config.dropToUnprivilegedUser = true) :
    .checked (.setresgid 1000) ∈ childProgram config := by
  simp only [childProgram, List.mem_append, h, if_true, List.mem_cons, true_or, or_true]

theorem capset_not_mem (h : config.dropCapabilities = false) :
    ∀ op ∈ childProgram config, op ≠ .checked .capset ∧ op ≠ .unchecked .capset := by
  simp only [childProgram, h, setLimits, cleanEnvironment, mountRuntimeFilesystems, mountPrivate,
    bindRoot, remountRootReadOnly, mountTmp, List.forall_mem_append, forall_mem_ite_nil,
    List.forall_mem_cons, List.not_mem_nil, ChildOp.checked.injEq, reduceCtorEq, ne_eq,
    not_false_eq_true, false_imp_iff, implies_true, and_true, Bool.false_eq_true, if_false]

/-- No maps are to be written, and no capabilities have been given up. -/
structure Unguarded (config : Config) (w : World) : Prop extends InOrder config w where
  capable : ∀ ops progress, w.child = .running ops progress → .called .capset ∉ w.done
  unmapped : ∀ ops progress, w.parent = .running ops progress → .mapIds ∉ ops

theorem launch_unguarded {host : Host} {ids : Ids} {pipe fork : Bool} {w : World}
    (huser : config.userNamespace = false) (h : launch host config ids pipe fork = some w) :
    Unguarded config w := by
  have horder := launch_inOrder h
  obtain ⟨_, rfl⟩ := launch_eq h
  refine { horder with capable := ?_, unmapped := ?_ }
  · intro ops progress _ hmem
    cases hmem
  · intro ops progress hparent hmem
    cases hparent
    simp only [parentProgram, parentSetup, huser, Bool.false_eq_true, if_false, List.append_nil,
      List.mem_append, List.mem_cons, List.not_mem_nil, reduceCtorEq, or_false, false_or] at hmem
    obtain ⟨path, value, hop⟩ := mem_configureCgroup hmem
    cases hop

theorem parent_setupStep {w w' : World} {m : Move} {ops : List ParentOp}
    {progress : ParentProgress} (h : setupStep w m = some (u, w'))
    (hparent : w'.parent = .running ops progress) :
    ∃ before progress', w.parent = .running (before ++ ops) progress' := by
  cases m with
  | child answer =>
    obtain ⟨v, hv, heq⟩ := Option.map_eq_some_iff.mp h
    cases heq
    obtain ⟨_, _, _, _, _, hcases⟩ := childStep_cases hv
    refine ⟨[], progress, ?_⟩
    rcases hcases with ⟨_, _, rfl⟩ | ⟨_, rfl⟩ | ⟨_, _, rfl⟩ | rfl <;> exact hparent
  | parent answer =>
    obtain ⟨v, hv, heq⟩ := Option.map_eq_some_iff.mp h
    cases heq
    obtain ⟨op, later, p, _, hbefore, hcases⟩ := parentStep_cases hv
    rcases hcases with ⟨_, _, rfl⟩ | ⟨_, rfl⟩ | rfl
    · cases hparent
      exact ⟨[], p, hbefore⟩
    · cases hparent
      exact ⟨[op], p, hbefore⟩
    · cases hparent

theorem lifeStep_unguarded (hcapable : config.dropCapabilities = false)
    (hI : Unguarded config f.world) (h : lifeStep kin f move = some (u, f')) :
    Unguarded config f'.world := by
  refine { lifeStep_inOrder hI.toInOrder h with capable := ?_, unmapped := ?_ }
  · intro ops progress hchild hmem
    rcases lifeStep_setup h with ⟨m, _, hstep⟩ | ⟨_, killed, rfl⟩
    · cases setupStep_moves hstep hchild with
      | stays p hbefore _ hcalled => exact hI.capable ops p hbefore (hcalled _ hmem)
      | passes op p hbefore _ hcalled _ _ =>
        obtain ⟨passed, hprogram, _⟩ := hI.child _ p hbefore
        have hop : op ∈ childProgram config := by
          rw [hprogram]
          exact List.mem_append_right _ List.mem_cons_self
        rcases hcalled _ hmem with hearlier | rfl | rfl
        · exact hI.capable _ p hbefore hearlier
        · exact (capset_not_mem hcapable _ hop).1 rfl
        · exact (capset_not_mem hcapable _ hop).2 rfl
    · exact hI.capable ops progress (running_parentGone hchild).2 hmem
  · intro ops progress hparent hmem
    rcases lifeStep_setup h with ⟨m, _, hstep⟩ | ⟨_, killed, rfl⟩
    · obtain ⟨before, p, hbefore⟩ := parent_setupStep hstep hparent
      exact hI.unmapped _ p hbefore (List.mem_append_right _ hmem)
    · exact hI.unmapped ops progress hparent hmem

/-- The kernel has nothing against any move of such processes, if the filter has not. -/
theorem grants_of_unguarded (hI : Unguarded config f.world)
    (hcapable : config.dropCapabilities = false)
    (hfilter : config.seccompAllowlist ≠ [] → PassesItself prlimit config) :
    Grants prlimit f move := by
  refine ⟨?_, ?_, ?_, fun m _ => obeys_of_passesItself hI.toInOrder hfilter⟩
  · intro answer ops progress _ hparent _
    exact absurd List.mem_cons_self (hI.unmapped _ _ hparent)
  · intro answer changed ops progress _ hchild
    obtain ⟨passed, hprogram, _⟩ := hI.child _ _ hchild
    have hop : .unchecked .capset ∈ childProgram config := by
      rw [hprogram]
      exact List.mem_append_right _ List.mem_cons_self
    exact absurd rfl (capset_not_mem hcapable _ hop).2
  · intro answer changed call ops progress _ hchild _ hgone _
    exact absurd hgone (hI.capable _ _ hchild)

end Unguarded

/-! ## Whole runs -/

section Runs

variable {kin : Kin} {config : Config} {ids : Ids} {prlimit : Bool} {host : Host}
  {pipe fork : Bool} {w : World} {moves : List LifeMove} {outputs : List Unit} {f : Family}

theorem userNamespace_of_run (hlaunch : launch host config ids pipe fork = some w)
    (hgrants : Machine.Along (lifeStep kin) (Grants prlimit) { world := w } moves)
    (hrun : Machine.run (lifeStep kin) { world := w } moves = some (outputs, f))
    (htarget : f.world.AtTarget) (hdrop : config.dropToUnprivilegedUser = true) :
    config.userNamespace = false := by
  by_contra huser
  have hend : InOrder config f.world ∧ Unmapped f.world :=
    Machine.run_invariant_along (fun f => InOrder config f.world ∧ Unmapped f.world) _
      (fun g _ _ _ hI hgrant hstep =>
        ⟨lifeStep_inOrder hI.1 hstep,
          lifeStep_unmapped (by rw [hI.1.config_eq, hdrop]) hI.2 hgrant hstep⟩)
      ⟨launch_inOrder hlaunch, launch_unmapped (Bool.eq_true_of_not_eq_false huser) hlaunch⟩
      hgrants hrun
  obtain ⟨progress, hchild⟩ := htarget
  cases hend.2.child _ _ hchild

theorem dropCapabilities_of_run (hlaunch : launch host config ids pipe fork = some w)
    (hgrants : Machine.Along (lifeStep kin) (Grants prlimit) { world := w } moves)
    (hrun : Machine.run (lifeStep kin) { world := w } moves = some (outputs, f))
    (hdead : f.parentAlive = false) (htarget : f.world.AtTarget) :
    config.dropCapabilities = false := by
  by_contra hcapable
  have hdropped : config.dropCapabilities = true := Bool.eq_true_of_not_eq_false hcapable
  have hend : CapsetInv config f.world ∧ FamilyInv config (fun _ => False) f :=
    Machine.run_invariant_along
      (fun f => CapsetInv config f.world ∧ FamilyInv config (fun _ => False) f) _
      (fun _ _ _ _ hI hgrant hstep =>
        ⟨lifeStep_capset hI.1 hgrant hstep,
          lifeStep_inv hI.2 (fun _ _ hlost => hlost)
            (staysArmed_of_capset hdropped hI.1 hgrant) hstep⟩)
      ⟨launch_capset hlaunch, launch_familyInv hlaunch⟩ hgrants hrun
  obtain ⟨progress, hchild⟩ := htarget
  cases orphan_ops hend.2 hdead hchild fun _ _ hlost => hlost

theorem filter_of_run (hlaunch : launch host config ids pipe fork = some w)
    (hgrants : Machine.Along (lifeStep kin) (Grants prlimit) { world := w } moves)
    (hrun : Machine.run (lifeStep kin) { world := w } moves = some (outputs, f))
    (htarget : f.world.AtTarget) (hlist : config.seccompAllowlist ≠ []) :
    PassesItself prlimit config := by
  have hend : LetThrough prlimit config f.world :=
    Machine.run_invariant_along (fun f => LetThrough prlimit config f.world) _
      (fun _ _ _ _ hI hgrant hstep => lifeStep_letThrough hlist hI hgrant hstep)
      (launch_letThrough hlist hlaunch) hgrants hrun
  exact hend.passesItself htarget

/-- A child that nothing keeps from changing its user loses its signal. -/
theorem outlives_of_unguarded (kin : Kin) (hlaunch : launch host config ids pipe fork = some w)
    (hdrop : config.dropToUnprivilegedUser = true) (huser : config.userNamespace = false)
    (hcapable : config.dropCapabilities = false)
    (hfilter : config.seccompAllowlist ≠ [] → PassesItself prlimit config) :
    Outlives prlimit kin w := by
  obtain ⟨v, hsucceeds, progress, hchild⟩ :=
    target_of_viable (launch_placed hlaunch) (launch_viable hlaunch)
  obtain ⟨f, hreaches, rfl, halive⟩ := reaches_raise kin (f := { world := w }) hsucceeds rfl rfl
  have hdisarmed : f.armed = false := by
    have hstart : Disarmed config { world := w } := by
      obtain ⟨_, rfl⟩ := launch_eq hlaunch
      intro ops p hrunning
      cases hrunning
      exact ⟨[], rfl, fun _ => rfl⟩
    have hD : Disarmed config f :=
      hreaches.invariant (Disarmed config) (fun _ _ _ _ h hq hs => disarmed_step h hq hs) hstart
    obtain ⟨passed, hprogram, hlost⟩ := hD _ _ hchild
    rw [List.append_nil] at hprogram
    apply hlost
    refine ⟨.setresgid 1000, ?_, rfl⟩
    rw [← hprogram]
    exact setresgid_mem_childProgram hdrop
  have hdies : lifeStep kin f .parentDies = some ((), f.parentGone false) := by
    simp only [lifeStep, halive, if_true, hdisarmed]
  have hwhole : Machine.Reaches (lifeStep kin) (fun _ => True) { world := w }
      (f.parentGone false) :=
    (hreaches.mono fun _ _ => trivial).trans (.single (i := .parentDies) trivial hdies)
  obtain ⟨moves, outputs, _, hrun⟩ := hwhole
  refine ⟨moves, outputs, _, ?_, hrun, rfl, progress, hchild⟩
  have hunguarded : Machine.Along (lifeStep kin) (fun f _ => Unguarded config f.world)
      { world := w } moves :=
    Machine.along_of_invariant (fun f => Unguarded config f.world) (fun _ _ => True)
      (fun _ _ _ _ hI _ hstep => lifeStep_unguarded hcapable hI hstep)
      (launch_unguarded huser hlaunch) (Machine.along_of_forall_mem fun _ _ _ => trivial)
  exact hunguarded.imp fun _ _ hI => grants_of_unguarded hI hcapable hfilter

/-- The target can outlive its parent exactly when it is to run as an unprivileged user and
the child may become that user: it has no user namespace, keeps its capabilities, and its
filter lets it do the rest. The change of the credentials then clears the signal that the
first thing has asked for. -/
theorem outlives_iff (prlimit : Bool) (kin : Kin)
    (hlaunch : launch host config ids pipe fork = some w) :
    Outlives prlimit kin w ↔ config.dropToUnprivilegedUser = true ∧
      config.userNamespace = false ∧ config.dropCapabilities = false ∧
      (config.seccompAllowlist ≠ [] → PassesItself prlimit config) := by
  constructor
  · rintro ⟨moves, outputs, f, hgrants, hrun, hdead, htarget⟩
    have hdrop : config.dropToUnprivilegedUser = true := by
      by_contra hkept
      obtain ⟨progress, hchild⟩ := htarget
      cases orphan_ops (familyInv_of_run hlaunch hrun) hdead hchild
        fun _ hprogram => not_credentialsSet (Bool.eq_false_iff.mpr hkept) hprogram
    exact ⟨hdrop, userNamespace_of_run hlaunch hgrants hrun htarget hdrop,
      dropCapabilities_of_run hlaunch hgrants hrun hdead htarget,
      filter_of_run hlaunch hgrants hrun htarget⟩
  · rintro ⟨hdrop, huser, hcapable, hfilter⟩
    exact outlives_of_unguarded kin hlaunch hdrop huser hcapable hfilter

end Runs

/-- A privileged caller lets the target run as an unprivileged user, and nothing else. -/
def loweredConfig : Config :=
  { userNamespace := false, mountNamespace := false, dropCapabilities := false,
    dropToUnprivilegedUser := true }

theorem outlives_iff_unprivileged :
    ∃ w, launch {} loweredConfig launchIds true true = some w ∧ Outlives true launchKin w := by
  obtain ⟨w, hlaunch⟩ := Option.isSome_iff_exists.mp
    (show (launch {} loweredConfig launchIds true true).isSome by decide)
  have hlist : loweredConfig.seccompAllowlist ≠ [] → PassesItself true loweredConfig :=
    fun h => absurd rfl h
  exact ⟨w, hlaunch, (outlives_iff true launchKin hlaunch).mpr ⟨rfl, rfl, rfl, hlist⟩⟩

end ExeCell.Sandbox
