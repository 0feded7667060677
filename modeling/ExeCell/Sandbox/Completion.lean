import ExeCell.Sandbox.FailClosed

/-!
# Setting up the sandbox does not get stuck

The child of `sandbox::run` waits for its parent in one place, the read from the pipe,
and the parent does not wait for the child before it has closed the pipe. So the two can
only be kept from the start of the target by a call that fails.

`World.Viable` says which states still lead there: the child is running, it is not
closing a file that it could not write, and if it still has to read the byte, the byte is
in the pipe or the parent can still send it. From every such state the target is reached
without one more failure, and from every other state it is not reached at all.
-/

namespace ExeCell.Sandbox

/-- Whether the call of the move succeeds. -/
def Move.isOk : Move → Bool
  | .child answer => answer.isOk
  | .parent answer => answer.isOk

/-! ## The points of an operation -/

/-- A file that is being closed after its write has failed: the operation will fail. -/
def Progress.doomed (progress : Progress) : Bool := progress = .closing false

def ParentProgress.doomed : ParentProgress → Bool
  | .plain progress => progress.doomed
  | .ids (.writeUid progress) => progress.doomed
  | .ids (.writeGid progress) => progress.doomed
  | .ids _ => false

/-- The operation of the child can stand at this point. -/
def ChildOp.Fits : ChildOp → Progress → Prop
  | .writeFile _ _, progress => progress ≠ .creating
  | .prepare _, progress => progress = .start ∨ progress = .creating
  | _, progress => progress = .start

/-- The operation of the parent can stand at this point. -/
def ParentOp.Fits : ParentOp → ParentProgress → Prop
  | .writeFile _ _, progress => ∃ p, progress = .plain p ∧ p ≠ .creating
  | .mapIds, progress => ∃ p, progress = .ids p ∧ p ≠ .writeUid .creating ∧ p ≠ .writeGid .creating
  | _, progress => progress = .plain .start

theorem ChildOp.fits_start (op : ChildOp) : op.Fits .start := by
  cases op <;> simp [ChildOp.Fits]

theorem ParentOp.fits_start (op : ParentOp) : op.Fits op.start := by
  cases op <;> simp [ParentOp.Fits, ParentOp.start]

theorem ParentOp.start_not_doomed (op : ParentOp) : op.start.doomed = false := by
  cases op <;> rfl

theorem ParentOp.startOf_not_doomed (ops : List ParentOp) :
    (ParentOp.startOf ops).doomed = false := by
  cases ops with
  | nil => rfl
  | cons op ops => exact op.start_not_doomed

/-! ## One operation, to its end -/

section WriteFile

variable {value : Text} {progress next : Progress} {answer : Answer}

theorem writeFileStep_ne_creating (h : writeFileStep value progress answer = .running next) :
    next ≠ .creating := by
  cases progress <;> cases answer <;> simp only [writeFileStep] at h
  case start.ok =>
    split at h <;> cases h <;> simp
  case writing.ok =>
    split at h <;> cases h <;> simp
  case writing.fail =>
    split at h <;> cases h <;> simp
  all_goals cases h

/-- A file that is being closed after a failed write is not written. -/
theorem writeFileStep_of_doomed (h : progress.doomed = true) :
    writeFileStep value progress answer = .finished false := by
  obtain rfl : progress = .closing false := by simpa [Progress.doomed] using h
  cases answer <;> rfl

/-- A rule for everything that `write_file` goes through when its calls succeed: what holds
when the file has been closed, and at a point before a point where it holds. -/
theorem writeFile_rule (value : Text) (P : Progress → Prop)
    (last : ∀ p a, a.isOk → writeFileStep value p a = .finished true → P p)
    (step : ∀ p q a, a.isOk → writeFileStep value p a = .running q → P q → P p)
    (hfits : progress ≠ .creating) (hdoomed : progress.doomed = false) : P progress := by
  have hclosing : P (.closing true) := last _ (.ok 0) rfl rfl
  have hwriting : ∀ offset, P (.writing offset) := by
    intro offset
    apply step (.writing offset) (.closing true) (.ok value.length) rfl _ hclosing
    rw [writeFileStep, if_neg (by omega)]
  cases progress with
  | start =>
    by_cases hvalue : value = []
    · apply step .start (.closing true) (.ok 0) rfl _ hclosing
      rw [writeFileStep, if_pos hvalue]
    · apply step .start (.writing 0) (.ok 0) rfl _ (hwriting 0)
      rw [writeFileStep, if_neg hvalue]
  | writing offset => exact hwriting offset
  | closing ok =>
    cases ok with
    | true => exact hclosing
    | false => simp [Progress.doomed] at hdoomed
  | creating => exact absurd rfl hfits

end WriteFile

/-- The operation can be brought to a good end from here by calls that succeed. -/
inductive ChildOp.Passes (op : ChildOp) : Progress → Prop where
  | last {progress : Progress} (answer : Answer) (hok : answer.isOk = true)
      (h : op.step progress answer = .finished true) : Passes op progress
  | next {progress next : Progress} (answer : Answer) (hok : answer.isOk = true)
      (h : op.step progress answer = .running next) (later : Passes op next) : Passes op progress

inductive ParentOp.Passes (config : Config) (ids : Ids) (op : ParentOp) :
    ParentProgress → Prop where
  | last {progress : ParentProgress} {effects : List Effect} (answer : Answer)
      (hok : answer.isOk = true) (h : op.step config ids progress answer = .finished true effects) :
      Passes config ids op progress
  | next {progress next : ParentProgress} {effects : List Effect} (answer : Answer)
      (hok : answer.isOk = true) (h : op.step config ids progress answer = .running next effects)
      (later : Passes config ids op next) : Passes config ids op progress

theorem ChildOp.passes {op : ChildOp} {progress : Progress} (hop : op ≠ .awaitReady)
    (hfits : op.Fits progress) (hdoomed : progress.doomed = false) : op.Passes progress := by
  cases op with
  | checked call => exact .last (.ok 0) rfl rfl
  | unchecked call => exact .last (.ok 0) rfl rfl
  | awaitReady => exact absurd rfl hop
  | writeFile path value =>
    apply writeFile_rule value _ _ _ hfits hdoomed
    · intro p a hok h
      exact .last a hok h
    · intro p q a hok h hq
      exact .next a hok h hq
  | prepare path =>
    rcases hfits with rfl | rfl
    · exact .last (.ok 1) rfl rfl
    · exact .last (.ok 0) rfl rfl

section ParentPasses

variable {config : Config} {ids : Ids} {progress : Progress}

/-- `setup_user_namespace` while it writes the map of the groups. -/
theorem passes_writeGid (hfits : progress ≠ .creating) (hdoomed : progress.doomed = false) :
    ParentOp.mapIds.Passes config ids (.ids (.writeGid progress)) := by
  apply writeFile_rule (idMapping config ids)
    (fun p => ParentOp.mapIds.Passes config ids (.ids (.writeGid p))) _ _ hfits hdoomed
  · intro p a hok h
    have hstep : ParentOp.mapIds.step config ids (.ids (.writeGid p)) a =
        .finished true [.wrote (procFile ids "gid_map".toList) (idMapping config ids)] := by
      simp only [ParentOp.step, mapIdsStep, writeMap, h]
    exact .last a hok hstep
  · intro p q a hok h hq
    have hstep : ParentOp.mapIds.step config ids (.ids (.writeGid p)) a =
        .running (.ids (.writeGid q)) [] := by
      simp only [ParentOp.step, mapIdsStep, writeMap, h]
    exact .next a hok hstep hq

/-- `setup_user_namespace` while it writes the map of the users. -/
theorem passes_writeUid (hfits : progress ≠ .creating) (hdoomed : progress.doomed = false) :
    ParentOp.mapIds.Passes config ids (.ids (.writeUid progress)) := by
  apply writeFile_rule (idMapping config ids)
    (fun p => ParentOp.mapIds.Passes config ids (.ids (.writeUid p))) _ _ hfits hdoomed
  · intro p a hok h
    have hstep : ParentOp.mapIds.step config ids (.ids (.writeUid p)) a =
        .running (.ids (.writeGid .start))
          [.wrote (procFile ids "uid_map".toList) (idMapping config ids)] := by
      simp only [ParentOp.step, mapIdsStep, writeMap, h]
    exact .next a hok hstep (passes_writeGid (by simp) rfl)
  · intro p q a hok h hq
    have hstep : ParentOp.mapIds.step config ids (.ids (.writeUid p)) a =
        .running (.ids (.writeUid q)) [] := by
      simp only [ParentOp.step, mapIdsStep, writeMap, h]
    exact .next a hok hstep hq

theorem passes_mapIds {progress : IdProgress} (hfits : ParentOp.mapIds.Fits (.ids progress))
    (hdoomed : (ParentProgress.ids progress).doomed = false) :
    ParentOp.mapIds.Passes config ids (.ids progress) := by
  obtain ⟨p, hp, huid, hgid⟩ := hfits
  cases hp
  have hwaitGid : ParentOp.mapIds.Passes config ids (.ids .waitGid) := .last (.ok 0) rfl rfl
  have hforkGid : ParentOp.mapIds.Passes config ids (.ids .forkGid) :=
    .next (.ok 0) rfl rfl hwaitGid
  have hwaitUid : ParentOp.mapIds.Passes config ids (.ids .waitUid) :=
    .next (.ok 0) rfl rfl hforkGid
  cases progress with
  | forkUid => exact .next (.ok 0) rfl rfl hwaitUid
  | waitUid => exact hwaitUid
  | forkGid => exact hforkGid
  | waitGid => exact hwaitGid
  | writeUid p => exact passes_writeUid (fun h => huid (by rw [h])) hdoomed
  | writeGid p => exact passes_writeGid (fun h => hgid (by rw [h])) hdoomed

theorem ParentOp.passes {op : ParentOp} {progress : ParentProgress} (hfits : op.Fits progress)
    (hdoomed : progress.doomed = false) : op.Passes config ids progress := by
  cases op with
  | setpgid => exact .last (.ok 0) rfl rfl
  | signalReady => exact .last (.ok 1) rfl rfl
  | closeReady => exact .last (.ok 0) rfl rfl
  | writeFile path value =>
    obtain ⟨p, rfl, hp⟩ := hfits
    apply writeFile_rule value
      (fun p => (ParentOp.writeFile path value).Passes config ids (.plain p)) _ _ hp hdoomed
    · intro p a hok h
      have hstep : (ParentOp.writeFile path value).step config ids (.plain p) a =
          .finished true [.wrote path value] := by
        simp only [ParentOp.step, h]
      exact .last a hok hstep
    · intro p q a hok h hq
      have hstep : (ParentOp.writeFile path value).step config ids (.plain p) a =
          .running (.plain q) [] := by
        simp only [ParentOp.step, h]
      exact .next a hok hstep hq
  | mapIds =>
    obtain ⟨p, rfl, hp⟩ := hfits
    exact passes_mapIds ⟨p, rfl, hp⟩ hdoomed

end ParentPasses

/-! ## Where the two processes stand -/

/-- Both processes are at a point that their operation goes through. -/
structure Placed (w : World) : Prop where
  child : ∀ op ops progress, w.child = .running (op :: ops) progress → op.Fits progress
  target : ∀ progress, w.child = .running [] progress → progress = .start
  parent : ∀ op ops progress, w.parent = .running (op :: ops) progress → op.Fits progress

/-- The parent has the byte still to send, and is not on its way to a failure. -/
def World.CanSignal (w : World) : Prop :=
  ∃ ops progress, w.parent = .running ops progress ∧ .signalReady ∈ ops ∧
    progress.doomed = false

/-- The child can still get to the start of its target. -/
def World.Viable (w : World) : Prop :=
  ∃ ops progress, w.child = .running ops progress ∧ progress.doomed = false ∧
    (.awaitReady ∈ ops → w.ready = true ∨ w.CanSignal)

section Steps

variable {w w' : World} {answer : Answer}

/-- An operation that is still running is at a point of it, and was not doomed. -/
theorem ChildOp.placed_running {op : ChildOp} {progress next : Progress}
    (hfits : op.Fits progress) (h : op.step progress answer = .running next) :
    op.Fits next ∧ progress.doomed = false := by
  cases op with
  | checked call => cases h
  | unchecked call => cases h
  | awaitReady => cases h
  | writeFile path value =>
    refine ⟨writeFileStep_ne_creating h, ?_⟩
    apply Bool.eq_false_iff.mpr
    intro hdoomed
    rw [ChildOp.step, writeFileStep_of_doomed hdoomed] at h
    cases h
  | prepare path =>
    rcases hfits with rfl | rfl
    · cases answer with
      | ok value => cases h
      | fail error =>
        simp only [ChildOp.step, prepareStep] at h
        split at h
        · cases h
          exact ⟨Or.inr rfl, rfl⟩
        · cases h
    · cases answer <;> cases h

theorem ChildOp.not_doomed_of_finished {op : ChildOp} {progress : Progress}
    (hfits : op.Fits progress) (h : op.step progress answer = .finished true) :
    progress.doomed = false := by
  cases op with
  | checked call => rw [show progress = .start from hfits]; rfl
  | unchecked call => rw [show progress = .start from hfits]; rfl
  | awaitReady => rw [show progress = .start from hfits]; rfl
  | writeFile path value =>
    apply Bool.eq_false_iff.mpr
    intro hdoomed
    rw [ChildOp.step, writeFileStep_of_doomed hdoomed] at h
    cases h
  | prepare path => rcases hfits with rfl | rfl <;> rfl

/-- `setup_user_namespace` goes from one of its points to another, and a map that is
closed after a failed write ends it. -/
theorem mapIdsStep_placed {config : Config} {ids : Ids} {progress : IdProgress}
    {next : ParentProgress} {effects : List Effect}
    (h : mapIdsStep config ids progress answer = .running next effects) :
    ParentOp.mapIds.Fits next ∧ (ParentProgress.ids progress).doomed = false := by
  cases progress with
  | forkUid =>
    cases answer <;> (cases h; exact ⟨⟨_, rfl, by simp, by simp⟩, rfl⟩)
  | waitUid =>
    rw [mapIdsStep] at h
    split at h <;> (cases h; exact ⟨⟨_, rfl, by simp, by simp⟩, rfl⟩)
  | forkGid =>
    cases answer <;> (cases h; exact ⟨⟨_, rfl, by simp, by simp⟩, rfl⟩)
  | waitGid =>
    rw [mapIdsStep] at h
    split at h
    · cases h
    · cases h
      exact ⟨⟨_, rfl, by simp, by simp⟩, rfl⟩
  | writeUid p =>
    have hdoomed : p.doomed = false := by
      apply Bool.eq_false_iff.mpr
      intro hdoomed
      rw [mapIdsStep, writeMap, writeFileStep_of_doomed hdoomed] at h
      cases h
    refine ⟨?_, hdoomed⟩
    rw [mapIdsStep, writeMap] at h
    split at h
    · rename_i q hq
      cases h
      exact ⟨_, rfl, by simpa using writeFileStep_ne_creating hq, by simp⟩
    · cases h
    · cases h
      exact ⟨_, rfl, by simp, by simp⟩
  | writeGid p =>
    have hdoomed : p.doomed = false := by
      apply Bool.eq_false_iff.mpr
      intro hdoomed
      rw [mapIdsStep, writeMap, writeFileStep_of_doomed hdoomed] at h
      cases h
    refine ⟨?_, hdoomed⟩
    rw [mapIdsStep, writeMap] at h
    split at h
    · rename_i q hq
      cases h
      exact ⟨_, rfl, by simp, by simpa using writeFileStep_ne_creating hq⟩
    · cases h
    · cases h

theorem ParentOp.placed_running {config : Config} {ids : Ids} {op : ParentOp}
    {progress next : ParentProgress} {effects : List Effect} (hfits : op.Fits progress)
    (h : op.step config ids progress answer = .running next effects) :
    op.Fits next ∧ progress.doomed = false := by
  cases op with
  | setpgid => cases h
  | signalReady => cases h
  | closeReady => cases h
  | writeFile path value =>
    obtain ⟨p, rfl, hp⟩ := hfits
    have hdoomed : p.doomed = false := by
      apply Bool.eq_false_iff.mpr
      intro hdoomed
      simp only [ParentOp.step, writeFileStep_of_doomed hdoomed] at h
      cases h
    simp only [ParentOp.step] at h
    split at h
    · rename_i q hq
      cases h
      exact ⟨⟨q, rfl, writeFileStep_ne_creating hq⟩, hdoomed⟩
    · cases h
    · cases h
  | mapIds =>
    obtain ⟨p, rfl, _⟩ := hfits
    exact mapIdsStep_placed h

theorem ParentOp.not_doomed_of_finished {config : Config} {ids : Ids} {op : ParentOp}
    {progress : ParentProgress} {effects : List Effect} (hfits : op.Fits progress)
    (h : op.step config ids progress answer = .finished true effects) :
    progress.doomed = false := by
  cases op with
  | setpgid => rw [show progress = .plain .start from hfits]; rfl
  | signalReady => rw [show progress = .plain .start from hfits]; rfl
  | closeReady => rw [show progress = .plain .start from hfits]; rfl
  | writeFile path value =>
    obtain ⟨p, rfl, hp⟩ := hfits
    apply Bool.eq_false_iff.mpr
    intro hdoomed
    simp only [ParentOp.step, writeFileStep_of_doomed hdoomed] at h
    cases h
  | mapIds =>
    obtain ⟨p, rfl, _⟩ := hfits
    apply Bool.eq_false_iff.mpr
    intro hdoomed
    cases p <;> try cases hdoomed
    · simp only [ParentOp.step, mapIdsStep, writeMap, writeFileStep_of_doomed hdoomed] at h
      cases h
    · simp only [ParentOp.step, mapIdsStep, writeMap, writeFileStep_of_doomed hdoomed] at h
      cases h

theorem childStep_placed (hP : Placed w) (h : childStep w answer = some w') : Placed w' := by
  obtain ⟨op, ops, progress, hchild, _, hcases⟩ := childStep_cases h
  rcases hcases with ⟨p, hstep, rfl⟩ | ⟨_, rfl⟩ | ⟨_, _, rfl⟩ | rfl
  · refine ⟨?_, ?_, hP.parent⟩
    · intro op' ops' p' hrunning
      cases hrunning
      exact (ChildOp.placed_running (hP.child _ _ _ hchild) hstep).1
    · intro p' hrunning
      cases hrunning
  · refine ⟨?_, ?_, hP.parent⟩
    · intro op' ops' p' hrunning
      cases hrunning
      exact op'.fits_start
    · intro p' hrunning
      cases hrunning
      rfl
  · refine ⟨?_, ?_, hP.parent⟩
    · intro op' ops' p' hrunning
      cases hrunning
      exact op'.fits_start
    · intro p' hrunning
      cases hrunning
      rfl
  · refine ⟨?_, ?_, hP.parent⟩
    · intro op' ops' p' hrunning
      cases hrunning
    · intro p' hrunning
      cases hrunning

theorem parentStep_placed (hP : Placed w) (h : parentStep w answer = some w') : Placed w' := by
  obtain ⟨op, ops, progress, effects, hparent, hcases⟩ := parentStep_cases h
  rcases hcases with ⟨p, hstep, rfl⟩ | ⟨_, rfl⟩ | rfl
  · refine ⟨hP.child, hP.target, ?_⟩
    intro op' ops' p' hrunning
    cases hrunning
    exact (ParentOp.placed_running (hP.parent _ _ _ hparent) hstep).1
  · refine ⟨hP.child, hP.target, ?_⟩
    intro op' ops' p' hrunning
    cases hrunning
    exact op'.fits_start
  · refine ⟨?_, ?_, ?_⟩
    · intro op' ops' p' hrunning
      cases hrunning
    · intro p' hrunning
      cases hrunning
    · intro op' ops' p' hrunning
      cases hrunning

theorem setupStep_placed {move : Move} {u : Unit} (hP : Placed w)
    (h : setupStep w move = some (u, w')) : Placed w' := by
  cases move with
  | child answer =>
    obtain ⟨v, hv, heq⟩ := Option.map_eq_some_iff.mp h
    cases heq
    exact childStep_placed hP hv
  | parent answer =>
    obtain ⟨v, hv, heq⟩ := Option.map_eq_some_iff.mp h
    cases heq
    exact parentStep_placed hP hv

theorem placed_of_reaches {C : Move → Prop} (h : Machine.Reaches setupStep C w w')
    (hP : Placed w) : Placed w' :=
  h.invariant Placed (fun _ _ _ _ hPlaced _ hstep => setupStep_placed hPlaced hstep) hP

theorem launch_placed {host : Host} {config : Config} {ids : Ids} {pipe fork : Bool}
    (h : launch host config ids pipe fork = some w) : Placed w := by
  obtain ⟨_, rfl⟩ := launch_eq h
  refine ⟨?_, ?_, ?_⟩
  · intro op ops progress hrunning
    simp only [ChildState.running.injEq] at hrunning
    rw [← hrunning.2]
    exact op.fits_start
  · intro progress hrunning
    simp only [ChildState.running.injEq] at hrunning
    exact hrunning.2.symm
  · intro op ops progress hrunning
    cases hrunning
    exact ParentOp.setpgid.fits_start

/-! ## What a step cannot bring back -/

/-- A step of the child leads to a viable state only from one. -/
theorem viable_of_childStep (hP : Placed w) (h : childStep w answer = some w')
    (hviable : w'.Viable) : w.Viable := by
  obtain ⟨op, ops, progress, hchild, hread, hcases⟩ := childStep_cases h
  obtain ⟨ops', progress', hchild', _, hready'⟩ := hviable
  have hfits := hP.child _ _ _ hchild
  rcases hcases with ⟨p, hstep, rfl⟩ | ⟨hstep, rfl⟩ | ⟨hstep, hignores, rfl⟩ | rfl
  · cases hchild'
    exact ⟨_, _, hchild, (ChildOp.placed_running hfits hstep).2, hready'⟩
  · cases hchild'
    refine ⟨_, _, hchild, ChildOp.not_doomed_of_finished hfits hstep, ?_⟩
    intro hawait
    rcases List.mem_cons.mp hawait with hop | hops
    · -- the read has returned the byte
      exact Or.inl (ready_of_readable hop.symm hread hstep)
    · exact hready' hops
  · cases hchild'
    cases op with
    | unchecked call =>
      refine ⟨_, _, hchild, ?_, ?_⟩
      · rw [show progress = .start from hfits]
        rfl
      · intro hawait
        exact hready' (by simpa using hawait)
    | checked call => cases hignores
    | writeFile path value => cases hignores
    | prepare path => cases hignores
    | awaitReady => cases hignores
  · cases hchild'

/-- A step of the parent leads to a viable state only from one. -/
theorem viable_of_parentStep (hP : Placed w) (h : parentStep w answer = some w')
    (hviable : w'.Viable) : w.Viable := by
  obtain ⟨op, ops, progress, effects, hparent, hcases⟩ := parentStep_cases h
  obtain ⟨ops', progress', hchild', hdoomed', hready'⟩ := hviable
  have hfits := hP.parent _ _ _ hparent
  rcases hcases with ⟨p, hstep, rfl⟩ | ⟨hstep, rfl⟩ | rfl
  · refine ⟨_, _, hchild', hdoomed', ?_⟩
    intro hawait
    rcases hready' hawait with hready | ⟨later, p', hparent', hsignal, _⟩
    · exact Or.inl hready
    · cases hparent'
      exact Or.inr ⟨_, _, hparent, hsignal, (ParentOp.placed_running hfits hstep).2⟩
  · have hprogress := ParentOp.not_doomed_of_finished hfits hstep
    refine ⟨_, _, hchild', hdoomed', ?_⟩
    intro hawait
    rcases hready' hawait with hready | ⟨later, p', hparent', hsignal, _⟩
    · rcases Bool.or_eq_true_iff.mp hready with hready | hsent
      · exact Or.inl hready
      · obtain rfl := of_decide_eq_true (Bool.and_eq_true_iff.mp hsent).1
        exact Or.inr ⟨_, _, hparent, List.mem_cons_self, hprogress⟩
    · cases hparent'
      exact Or.inr ⟨_, _, hparent, List.mem_cons_of_mem _ hsignal, hprogress⟩
  · cases hchild'

theorem viable_of_setupStep {move : Move} {u : Unit} (hP : Placed w)
    (h : setupStep w move = some (u, w')) (hviable : w'.Viable) : w.Viable := by
  cases move with
  | child answer =>
    obtain ⟨v, hv, heq⟩ := Option.map_eq_some_iff.mp h
    cases heq
    exact viable_of_childStep hP hv hviable
  | parent answer =>
    obtain ⟨v, hv, heq⟩ := Option.map_eq_some_iff.mp h
    cases heq
    exact viable_of_parentStep hP hv hviable

theorem viable_of_atTarget (hP : Placed w) (h : w.AtTarget) : w.Viable := by
  obtain ⟨progress, hchild⟩ := h
  refine ⟨[], progress, hchild, ?_, by simp⟩
  rw [hP.target _ hchild]
  rfl

/-! ## The way to the target -/

theorem setupStep_child_running {op : ChildOp} {ops : List ChildOp} {progress next : Progress}
    (hchild : w.child = .running (op :: ops) progress) (hread : w.readable op answer = true)
    (h : op.step progress answer = .running next) :
    setupStep w (.child answer) = some ((), { w with child := .running (op :: ops) next }) := by
  simp only [setupStep, childStep, hchild, hread, if_true, h, Option.map_some]

theorem setupStep_child_finished {op : ChildOp} {ops : List ChildOp} {progress : Progress}
    (hchild : w.child = .running (op :: ops) progress) (hread : w.readable op answer = true)
    (h : op.step progress answer = .finished true) :
    setupStep w (.child answer) =
      some ((), { w with child := .running ops .start, done := w.done ++ op.effects }) := by
  simp only [setupStep, childStep, hchild, hread, if_true, h, Option.map_some]

theorem setupStep_parent_running {op : ParentOp} {ops : List ParentOp}
    {progress next : ParentProgress} {effects : List Effect}
    (hparent : w.parent = .running (op :: ops) progress)
    (h : op.step w.config w.ids progress answer = .running next effects) :
    setupStep w (.parent answer) =
      some ((), { w with parent := .running (op :: ops) next, done := w.done ++ effects }) := by
  simp only [setupStep, parentStep, hparent, h, Option.map_some]

theorem setupStep_parent_finished {op : ParentOp} {ops : List ParentOp}
    {progress : ParentProgress} {effects : List Effect}
    (hparent : w.parent = .running (op :: ops) progress)
    (h : op.step w.config w.ids progress answer = .finished true effects) :
    setupStep w (.parent answer) =
      some ((), { w with
        parent := .running ops (ParentOp.startOf ops)
        ready := w.ready || (op = .signalReady && answer.isOk)
        closed := w.closed || op = .closeReady
        done := w.done ++ effects }) := by
  simp only [setupStep, parentStep, hparent, h, Option.map_some]

/-- Some successful calls lead from the one state to the other. -/
abbrev Succeeds (w w' : World) : Prop :=
  Machine.Reaches setupStep (fun move => move.isOk = true) w w'

theorem readable_of_ne {op : ChildOp} (hop : op ≠ .awaitReady) : w.readable op answer = true := by
  cases op with
  | awaitReady => exact absurd rfl hop
  | checked call => rfl
  | unchecked call => rfl
  | writeFile path value => rfl
  | prepare path => rfl

/-- The child gets behind an operation that it can pass. -/
theorem child_passes {op : ChildOp} {ops : List ChildOp} {progress : Progress}
    (hop : op ≠ .awaitReady) (hpasses : op.Passes progress)
    (hchild : w.child = .running (op :: ops) progress) :
    ∃ w', Succeeds w w' ∧ w'.child = .running ops .start ∧ w'.ready = w.ready := by
  induction hpasses generalizing w with
  | @last p a hok h =>
    have hstep := setupStep_child_finished hchild (readable_of_ne hop) h
    exact ⟨_, .single (i := .child a) hok hstep, rfl, rfl⟩
  | @next p q a hok h later ih =>
    have hstep := setupStep_child_running hchild (readable_of_ne hop) h
    obtain ⟨w', hreaches, hlast, hready⟩ :=
      ih (w := { w with child := .running (op :: ops) q }) rfl
    exact ⟨w', .head (i := .child a) hok hstep hreaches, hlast, hready⟩

/-- The child gets to its target when it does not have to wait any more. -/
theorem child_reaches_target {ops : List ChildOp} {progress : Progress} (hP : Placed w)
    (hchild : w.child = .running ops progress) (hdoomed : progress.doomed = false)
    (hready : .awaitReady ∈ ops → w.ready = true) : ∃ w', Succeeds w w' ∧ w'.AtTarget := by
  induction ops generalizing w progress with
  | nil => exact ⟨w, .refl w, progress, hchild⟩
  | cons op ops ih =>
    have hnext : ∃ w', Succeeds w w' ∧ w'.child = .running ops .start ∧ w'.ready = w.ready := by
      by_cases hop : op = .awaitReady
      · subst hop
        have hread : w.readable .awaitReady (.ok 1) = true := hready List.mem_cons_self
        have hstep := setupStep_child_finished hchild hread rfl
        exact ⟨_, .single (i := .child (.ok 1)) rfl hstep, rfl, rfl⟩
      · exact child_passes hop (ChildOp.passes hop (hP.child _ _ _ hchild) hdoomed) hchild
    obtain ⟨w', hreaches, hchild', hready'⟩ := hnext
    have hP' : Placed w' := placed_of_reaches hreaches hP
    obtain ⟨w'', hlater, htarget⟩ := ih hP' hchild' rfl fun hawait => by
      rw [hready']
      exact hready (List.mem_cons_of_mem _ hawait)
    exact ⟨w'', hreaches.trans hlater, htarget⟩

/-- The parent gets behind an operation that it can pass, and the child does not move. -/
theorem parent_passes {op : ParentOp} {ops : List ParentOp} {progress : ParentProgress}
    (hpasses : op.Passes w.config w.ids progress)
    (hparent : w.parent = .running (op :: ops) progress) :
    ∃ w', Succeeds w w' ∧ w'.child = w.child ∧
      w'.parent = .running ops (ParentOp.startOf ops) ∧ (op = .signalReady → w'.ready = true) := by
  generalize hconfig : w.config = config at hpasses
  generalize hids : w.ids = ids at hpasses
  induction hpasses generalizing w with
  | @last p effects a hok h =>
    subst hconfig hids
    have hstep := setupStep_parent_finished hparent h
    refine ⟨_, .single (i := .parent a) hok hstep, rfl, rfl, ?_⟩
    intro hop
    simp [hop, hok]
  | @next p q effects a hok h later ih =>
    subst hconfig hids
    have hstep := setupStep_parent_running hparent h
    obtain ⟨w', hreaches, hchild, hlast, hready⟩ :=
      ih (w := { w with parent := .running (op :: ops) q, done := w.done ++ effects }) rfl rfl rfl
    exact ⟨w', .head (i := .parent a) hok hstep hreaches, hchild, hlast, hready⟩

/-- The parent sends the byte. -/
theorem parent_reaches_ready {ops : List ParentOp} {progress : ParentProgress} (hP : Placed w)
    (hparent : w.parent = .running ops progress) (hdoomed : progress.doomed = false)
    (hsignal : .signalReady ∈ ops) :
    ∃ w', Succeeds w w' ∧ w'.child = w.child ∧ w'.ready = true := by
  induction ops generalizing w progress with
  | nil => cases hsignal
  | cons op ops ih =>
    have hpasses : op.Passes w.config w.ids progress :=
      ParentOp.passes (hP.parent _ _ _ hparent) hdoomed
    obtain ⟨w', hreaches, hchild, hparent', hready⟩ := parent_passes hpasses hparent
    by_cases hop : op = .signalReady
    · exact ⟨w', hreaches, hchild, hready hop⟩
    · have hP' : Placed w' := placed_of_reaches hreaches hP
      have hlater : .signalReady ∈ ops := by
        rcases List.mem_cons.mp hsignal with heq | hmem
        · exact absurd heq.symm hop
        · exact hmem
      obtain ⟨w'', hreaches', hchild', hready'⟩ :=
        ih hP' hparent' (ParentOp.startOf_not_doomed ops) hlater
      exact ⟨w'', hreaches.trans hreaches', hchild'.trans hchild, hready'⟩

theorem target_of_viable (hP : Placed w) (h : w.Viable) : ∃ w', Succeeds w w' ∧ w'.AtTarget := by
  obtain ⟨ops, progress, hchild, hdoomed, hready⟩ := h
  by_cases hawait : .awaitReady ∈ ops
  · rcases hready hawait with hbyte | ⟨pops, pprogress, hparent, hsignal, hsound⟩
    · exact child_reaches_target hP hchild hdoomed fun _ => hbyte
    · obtain ⟨w', hreaches, hchild', hbyte⟩ := parent_reaches_ready hP hparent hsound hsignal
      have hP' : Placed w' := placed_of_reaches hreaches hP
      obtain ⟨w'', hlater, htarget⟩ :=
        child_reaches_target hP' (hchild'.trans hchild) hdoomed fun _ => hbyte
      exact ⟨w'', hreaches.trans hlater, htarget⟩
  · exact child_reaches_target hP hchild hdoomed fun h => absurd h hawait

end Steps

/-! ## Whole runs -/

/-- The states of a setup from which its target can still be started are the viable ones,
and from each of them no further call has to fail: the two processes never wait for each
other in vain. -/
theorem target_reachable_iff {host : Host} {config : Config} {ids : Ids} {pipe fork : Bool}
    {w w' : World} {moves : List Move} {outputs : List Unit}
    (hlaunch : launch host config ids pipe fork = some w)
    (hrun : Machine.run setupStep w moves = some (outputs, w')) :
    ((∃ w'', Machine.Reaches setupStep (fun _ => True) w' w'' ∧ w''.AtTarget) ↔ w'.Viable) ∧
      (w'.Viable → ∃ w'', Succeeds w' w'' ∧ w''.AtTarget) := by
  have hP : Placed w' :=
    Machine.run_invariant Placed (fun _ _ _ _ h hs => setupStep_placed h hs)
      (launch_placed hlaunch) hrun
  refine ⟨⟨?_, ?_⟩, target_of_viable hP⟩
  · rintro ⟨w'', hreaches, htarget⟩
    have hP' : Placed w'' := placed_of_reaches hreaches hP
    exact hreaches.backward Placed World.Viable (fun _ _ _ _ h hs => setupStep_placed h hs)
      (fun _ _ _ _ h hs => viable_of_setupStep h hs) hP (viable_of_atTarget hP' htarget)
  · intro hviable
    obtain ⟨w'', hreaches, htarget⟩ := target_of_viable hP hviable
    exact ⟨w'', hreaches.mono fun _ _ => trivial, htarget⟩

/-- The parent of the default configuration cannot fork its first helper, and then it
cannot write the map of the users itself. -/
def failedMapMoves : List Move :=
  [.parent (.ok 0), .parent (.fail 11), .parent (.ok 3), .parent (.fail 1)]

/-- The child still waits for its byte, but it waits for nothing. -/
theorem target_reachable_iff_failedMap :
    ∃ w w' outputs, launch {} {} launchIds true true = some w ∧
      Machine.run setupStep w failedMapMoves = some (outputs, w') ∧
      ¬ ∃ w'', Machine.Reaches setupStep (fun _ => True) w' w'' ∧ w''.AtTarget := by
  let start : World :=
    { config := {}, ids := launchIds, child := .running (childProgram {}) .start,
      parent := .running (parentProgram {} launchIds) ParentOp.setpgid.start }
  have hlaunch : launch {} {} launchIds true true = some start := by decide
  have hrun : Machine.run setupStep start failedMapMoves = some ([(), (), (), ()],
      { start with
        parent := .running [.mapIds, .signalReady, .closeReady] (.ids (.writeUid (.closing false))) }) := by
    decide
  refine ⟨_, _, _, hlaunch, hrun, ?_⟩
  rw [(target_reachable_iff hlaunch hrun).1]
  rintro ⟨ops, progress, hchild, _, hready⟩
  obtain rfl : childProgram {} = ops := by
    cases hchild
    rfl
  rcases hready (by decide) with hbyte | ⟨pops, p, hparent, _, hsound⟩
  · cases hbyte
  · cases hparent
    cases hsound

end ExeCell.Sandbox
