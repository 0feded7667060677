import ExeCell.Sandbox.Setup

/-!
# The sandbox fails closed

`Contained` says what a configuration asks for, control by control, over the effects
that have been applied. The child reaches its target contained on every run of the two
processes, whatever the system calls answer, on which

* the one call whose result the child ignores, `capset`, does not fail,
* a cgroup is asked for only together with the user namespace, whose handshake is the
  only thing that makes the child wait for its parent, and
* a read-only root is asked for only together with the mount namespace.

`validate` asks for neither of the last two.
-/

namespace ExeCell.Sandbox

/-! ## What a configuration asks for -/

/-- Both id maps are installed: by the two setuid helpers, or by the parent's own
writes. -/
def IdsMapped (config : Config) (ids : Ids) (done : List Effect) : Prop :=
  (.mapped "newuidmap".toList ∈ done ∧ .mapped "newgidmap".toList ∈ done) ∨
  (.wrote (procFile ids "uid_map".toList) (idMapping config ids) ∈ done ∧
    .wrote (procFile ids "gid_map".toList) (idMapping config ids) ∈ done)

/-- The file `name` of the cgroup holds `value`. -/
def CgroupFile (budget : CgroupBudget) (name : String) (value : Text) (done : List Effect) :
    Prop :=
  .wrote (LexicalPath.append budget.path name.toList) value ∈ done

/-- Every control that the configuration asks for has been applied. -/
structure Contained (config : Config) (ids : Ids) (done : List Effect) : Prop where
  userNamespace : config.userNamespace →
    .called (.unshare .user) ∈ done ∧
    .wrote "/proc/self/setgroups".toList "deny\n".toList ∈ done ∧ IdsMapped config ids done
  mountNamespace : config.mountNamespace →
    .called (.unshare .mount) ∈ done ∧ .called mountPrivate ∈ done ∧ .called mountTmp ∈ done
  readOnlyRoot : config.readOnlyRoot →
    .called bindRoot ∈ done ∧ .called remountRootReadOnly ∈ done
  rootfs : config.rootfs ≠ [] →
    .called (.chroot config.rootfs) ∈ done ∧ .called (.chdir "/".toList) ∈ done
  mountProc : config.rootfs ≠ [] → config.mountProc →
    .called (.mount "proc".toList "/proc".toList "proc".toList [.nosuid, .nodev, .noexec]
      "hidepid=2".toList) ∈ done
  mountRun : config.rootfs ≠ [] → config.mountRun →
    .called (.mount "tmpfs".toList "/run".toList "tmpfs".toList [.nosuid, .nodev, .noexec]
      "size=16m,mode=0755".toList) ∈ done
  networkNamespace : config.networkNamespace → .called (.unshare .net) ∈ done
  dropCapabilities : config.dropCapabilities → .called .capset ∈ done
  noNewPrivileges : config.noNewPrivileges → .called .setNoNewPrivs ∈ done
  seccomp : config.seccompAllowlist ≠ [] → .called (.seccomp config.seccompAllowlist) ∈ done
  cpuSeconds : config.cpuSeconds ≠ 0 → .called (.setrlimit .cpu config.cpuSeconds) ∈ done
  addressSpaceBytes : config.addressSpaceBytes ≠ 0 →
    .called (.setrlimit .addressSpace config.addressSpaceBytes) ∈ done
  maxProcesses : config.maxProcesses ≠ 0 →
    .called (.setrlimit .processes config.maxProcesses) ∈ done
  maxFileBytes : config.maxFileBytes ≠ 0 →
    .called (.setrlimit .fileSize config.maxFileBytes) ∈ done
  dropToUnprivilegedUser : config.dropToUnprivilegedUser →
    .called (.setresgid 1000) ∈ done ∧ .called (.setresuid 1000) ∈ done
  cleanEnvironment : config.cleanEnvironment →
    .called .clearenv ∈ done ∧
    ∀ entry ∈ [("PATH", "/usr/bin:/bin"), ("HOME", "/tmp"), ("TMPDIR", "/tmp"), ("LANG", "C"),
        ("LC_ALL", "C")],
      .called (.setenv entry.1.toList entry.2.toList) ∈ done
  memoryMax : config.cgroup.path ≠ [] → config.cgroup.memoryMax ≠ 0 →
    CgroupFile config.cgroup "memory.max" (Text.ofNat config.cgroup.memoryMax) done
  pidsMax : config.cgroup.path ≠ [] → config.cgroup.pidsMax ≠ 0 →
    CgroupFile config.cgroup "pids.max" (Text.ofNat config.cgroup.pidsMax) done
  cpuMax : config.cgroup.path ≠ [] → config.cgroup.cpuQuotaUs ≠ 0 →
    CgroupFile config.cgroup "cpu.max"
      (Text.ofNat config.cgroup.cpuQuotaUs ++ ' ' :: Text.ofNat config.cgroup.cpuPeriodUs) done
  cgroupProcs : config.cgroup.path ≠ [] →
    CgroupFile config.cgroup "cgroup.procs" (Text.ofNat ids.pid) done

/-! ## What an operation establishes -/

/-- What is applied once the parent has passed the operation. -/
def ParentOp.Holds (config : Config) (ids : Ids) (done : List Effect) : ParentOp → Prop
  | .writeFile path value => .wrote path value ∈ done
  | .mapIds => IdsMapped config ids done
  | .setpgid | .signalReady | .closeReady => True

/-- The parent has passed everything it does before it sends the byte. -/
def ParentReady (config : Config) (ids : Ids) (done : List Effect) : Prop :=
  ∀ op ∈ parentSetup config ids, op.Holds config ids done

/-- What is applied once the child has passed the operation. -/
def ChildOp.Holds (config : Config) (ids : Ids) (done : List Effect) : ChildOp → Prop
  | .awaitReady => ParentReady config ids done
  | op => ∀ e ∈ op.effects, e ∈ done

/-- What is applied while `setup_user_namespace` stands at a point between its calls. -/
def IdProgress.Holds (config : Config) (ids : Ids) (done : List Effect) : IdProgress → Prop
  | .forkGid | .waitGid => .mapped "newuidmap".toList ∈ done
  | .writeGid _ => .wrote (procFile ids "uid_map".toList) (idMapping config ids) ∈ done
  | .forkUid | .waitUid | .writeUid _ => True

def ParentProgress.Holds (config : Config) (ids : Ids) (done : List Effect) :
    ParentProgress → Prop
  | .plain _ => True
  | .ids progress => progress.Holds config ids done

section Monotone

variable {config : Config} {ids : Ids} {done done' : List Effect}

theorem IdsMapped.mono (hsub : done ⊆ done') (h : IdsMapped config ids done) :
    IdsMapped config ids done' := by
  rcases h with ⟨hu, hg⟩ | ⟨hu, hg⟩
  · exact Or.inl ⟨hsub hu, hsub hg⟩
  · exact Or.inr ⟨hsub hu, hsub hg⟩

theorem ParentOp.Holds.mono (hsub : done ⊆ done') {op : ParentOp}
    (h : op.Holds config ids done) : op.Holds config ids done' := by
  cases op with
  | writeFile path value => exact hsub h
  | mapIds => exact IdsMapped.mono hsub h
  | setpgid => trivial
  | signalReady => trivial
  | closeReady => trivial

theorem ParentReady.mono (hsub : done ⊆ done') (h : ParentReady config ids done) :
    ParentReady config ids done' :=
  fun op hop => (h op hop).mono hsub

theorem ChildOp.Holds.mono (hsub : done ⊆ done') {op : ChildOp}
    (h : op.Holds config ids done) : op.Holds config ids done' := by
  cases op with
  | awaitReady => exact ParentReady.mono hsub h
  | checked call => exact fun e he => hsub (h e he)
  | unchecked call => exact fun e he => hsub (h e he)
  | writeFile path value => exact fun e he => hsub (h e he)
  | prepare path => exact fun e he => hsub (h e he)

theorem IdProgress.Holds.mono (hsub : done ⊆ done') {progress : IdProgress}
    (h : progress.Holds config ids done) : progress.Holds config ids done' := by
  cases progress with
  | forkUid => trivial
  | waitUid => trivial
  | forkGid => exact hsub h
  | waitGid => exact hsub h
  | writeUid p => trivial
  | writeGid p => exact hsub h

theorem ParentProgress.Holds.mono (hsub : done ⊆ done') {progress : ParentProgress}
    (h : progress.Holds config ids done) : progress.Holds config ids done' := by
  cases progress with
  | plain p => trivial
  | ids p => exact IdProgress.Holds.mono hsub h

end Monotone

/-! ## One operation of the parent -/

section ParentOps

variable {config : Config} {ids : Ids} {done effects : List Effect} {answer : Answer}

theorem ParentOp.startOf_holds (ops : List ParentOp) :
    (ParentOp.startOf ops).Holds config ids done := by
  cases ops with
  | nil => trivial
  | cons op ops => cases op <;> trivial

/-- A part of `setup_user_namespace` that writes a map either is still writing, or has
written it and continues with `next`, or has failed. -/
theorem writeMap_cases (path value : Text) (resume : Progress → IdProgress)
    (next : ParentResult) (progress : Progress) (answer : Answer) :
    (∃ p, writeMap path value resume next progress answer = .running (.ids (resume p)) []) ∨
    (∃ p es, next = .running p es ∧
      writeMap path value resume next progress answer = .running p (.wrote path value :: es)) ∨
    (∃ ok es, next = .finished ok es ∧
      writeMap path value resume next progress answer = .finished ok (.wrote path value :: es)) ∨
    writeMap path value resume next progress answer = .finished false [] := by
  unfold writeMap
  split
  · exact Or.inl ⟨_, rfl⟩
  · exact Or.inr (Or.inr (Or.inr rfl))
  · cases next with
    | running p es => exact Or.inr (Or.inl ⟨p, es, rfl, rfl⟩)
    | finished ok es => exact Or.inr (Or.inr (Or.inl ⟨ok, es, rfl, rfl⟩))

theorem mapIdsStep_running {progress : IdProgress} {next : ParentProgress}
    (hp : progress.Holds config ids done)
    (h : mapIdsStep config ids progress answer = .running next effects) :
    next.Holds config ids (done ++ effects) := by
  cases progress with
  | forkUid =>
    cases answer <;> (simp only [mapIdsStep, ParentResult.running.injEq] at h
                      obtain ⟨rfl, rfl⟩ := h
                      trivial)
  | waitUid =>
    simp only [mapIdsStep] at h
    split at h <;> (simp only [ParentResult.running.injEq] at h; obtain ⟨rfl, rfl⟩ := h)
    · simp [ParentProgress.Holds, IdProgress.Holds]
    · trivial
  | forkGid =>
    have hmapped : .mapped "newuidmap".toList ∈ done := hp
    cases answer <;> (simp only [mapIdsStep, ParentResult.running.injEq] at h
                      obtain ⟨rfl, rfl⟩ := h)
    · simpa [ParentProgress.Holds, IdProgress.Holds] using hmapped
    · trivial
  | waitGid =>
    simp only [mapIdsStep] at h
    split at h
    · cases h
    · simp only [ParentResult.running.injEq] at h
      obtain ⟨rfl, rfl⟩ := h
      trivial
  | writeUid p =>
    rw [mapIdsStep] at h
    rcases writeMap_cases (procFile ids "uid_map".toList) (idMapping config ids) .writeUid
      (.running (.ids (.writeGid .start)) []) p answer with
      ⟨q, hw⟩ | ⟨q, es, hn, hw⟩ | ⟨ok, es, hn, hw⟩ | hw
    · rw [hw] at h
      cases h
      trivial
    · rw [hw] at h
      cases hn
      cases h
      simp [ParentProgress.Holds, IdProgress.Holds]
    · cases hn
    · rw [hw] at h
      cases h
  | writeGid p =>
    have hwrote : .wrote (procFile ids "uid_map".toList) (idMapping config ids) ∈ done := hp
    rw [mapIdsStep] at h
    rcases writeMap_cases (procFile ids "gid_map".toList) (idMapping config ids) .writeGid
      (.finished true []) p answer with ⟨q, hw⟩ | ⟨q, es, hn, hw⟩ | ⟨ok, es, hn, hw⟩ | hw
    · rw [hw] at h
      cases h
      exact List.mem_append_left _ hwrote
    · cases hn
    · rw [hw] at h
      cases h
    · rw [hw] at h
      cases h

theorem mapIdsStep_finished {progress : IdProgress} (hp : progress.Holds config ids done)
    (h : mapIdsStep config ids progress answer = .finished true effects) :
    IdsMapped config ids (done ++ effects) := by
  cases progress with
  | forkUid => cases answer <;> simp [mapIdsStep] at h
  | waitUid =>
    simp only [mapIdsStep] at h
    split at h <;> cases h
  | forkGid => cases answer <;> simp [mapIdsStep] at h
  | waitGid =>
    have hmapped : .mapped "newuidmap".toList ∈ done := hp
    simp only [mapIdsStep] at h
    split at h
    · cases h
      exact Or.inl ⟨List.mem_append_left _ hmapped, by simp⟩
    · cases h
  | writeUid p =>
    rw [mapIdsStep] at h
    rcases writeMap_cases (procFile ids "uid_map".toList) (idMapping config ids) .writeUid
      (.running (.ids (.writeGid .start)) []) p answer with
      ⟨q, hw⟩ | ⟨q, es, hn, hw⟩ | ⟨ok, es, hn, hw⟩ | hw
    · rw [hw] at h
      cases h
    · rw [hw] at h
      cases h
    · cases hn
    · rw [hw] at h
      cases h
  | writeGid p =>
    have hwrote : .wrote (procFile ids "uid_map".toList) (idMapping config ids) ∈ done := hp
    rw [mapIdsStep] at h
    rcases writeMap_cases (procFile ids "gid_map".toList) (idMapping config ids) .writeGid
      (.finished true []) p answer with ⟨q, hw⟩ | ⟨q, es, hn, hw⟩ | ⟨ok, es, hn, hw⟩ | hw
    · rw [hw] at h
      cases h
    · cases hn
    · rw [hw] at h
      cases hn
      cases h
      exact Or.inr ⟨List.mem_append_left _ hwrote, by simp⟩
    · rw [hw] at h
      cases h

theorem ParentOp.step_running {op : ParentOp} {progress next : ParentProgress}
    (hp : progress.Holds config ids done)
    (h : op.step config ids progress answer = .running next effects) :
    next.Holds config ids (done ++ effects) := by
  cases op with
  | setpgid => cases h
  | signalReady => cases h
  | closeReady => cases h
  | writeFile path value =>
    cases progress with
    | ids p => cases h
    | plain p =>
      simp only [ParentOp.step] at h
      split at h <;> cases h
      trivial
  | mapIds =>
    cases progress with
    | plain p => cases h
    | ids p => exact mapIdsStep_running hp h

theorem ParentOp.step_finished {op : ParentOp} {progress : ParentProgress}
    (hp : progress.Holds config ids done)
    (h : op.step config ids progress answer = .finished true effects) :
    op.Holds config ids (done ++ effects) := by
  cases op with
  | setpgid => trivial
  | signalReady => trivial
  | closeReady => trivial
  | writeFile path value =>
    cases progress with
    | ids p => cases h
    | plain p =>
      simp only [ParentOp.step] at h
      split at h <;> cases h
      simp [ParentOp.Holds]
  | mapIds =>
    cases progress with
    | plain p => cases h
    | ids p => exact mapIdsStep_finished hp h

end ParentOps

/-! ## One step of the two processes -/

theorem childStep_cases {w w' : World} {answer : Answer} (h : childStep w answer = some w') :
    ∃ op ops progress, w.child = .running (op :: ops) progress ∧ w.readable op answer ∧
      ((∃ p, op.step progress answer = .running p ∧
          w' = { w with child := .running (op :: ops) p }) ∨
        (op.step progress answer = .finished true ∧
          w' = { w with child := .running ops .start, done := w.done ++ op.effects }) ∨
        (op.step progress answer = .finished false ∧ op.ignoresFailure ∧
          w' = { w with child := .running ops .start }) ∨
        w' = { w with child := .exited }) := by
  rw [childStep.eq_def] at h
  split at h
  · rename_i op ops progress hchild
    split at h
    · rename_i hread
      refine ⟨op, ops, progress, hchild, hread, ?_⟩
      split at h
      · rename_i p hstep
        exact Or.inl ⟨p, hstep, (Option.some.inj h).symm⟩
      · rename_i hstep
        exact Or.inr (Or.inl ⟨hstep, (Option.some.inj h).symm⟩)
      · rename_i hstep
        split at h
        · rename_i hignores
          exact Or.inr (Or.inr (Or.inl ⟨hstep, hignores, (Option.some.inj h).symm⟩))
        · exact Or.inr (Or.inr (Or.inr (Option.some.inj h).symm))
    · cases h
  · cases h

theorem parentStep_cases {w w' : World} {answer : Answer} (h : parentStep w answer = some w') :
    ∃ op ops progress effects, w.parent = .running (op :: ops) progress ∧
      ((∃ p, op.step w.config w.ids progress answer = .running p effects ∧
          w' = { w with parent := .running (op :: ops) p, done := w.done ++ effects }) ∨
        (op.step w.config w.ids progress answer = .finished true effects ∧
          w' = { w with
            parent := .running ops (ParentOp.startOf ops)
            ready := w.ready || (op = .signalReady && answer.isOk)
            closed := w.closed || op = .closeReady
            done := w.done ++ effects }) ∨
        w' = { w with parent := .failed, child := .killed, done := w.done ++ effects }) := by
  rw [parentStep.eq_def] at h
  split at h
  · rename_i op ops progress hparent
    split at h
    · rename_i p effects hstep
      exact ⟨op, ops, progress, effects, hparent, Or.inl ⟨p, hstep, (Option.some.inj h).symm⟩⟩
    · rename_i effects hstep
      exact ⟨op, ops, progress, effects, hparent,
        Or.inr (Or.inl ⟨hstep, (Option.some.inj h).symm⟩)⟩
    · rename_i effects hstep
      exact ⟨op, ops, progress, effects, hparent,
        Or.inr (Or.inr (Option.some.inj h).symm)⟩
  · cases h

/-- The child's `capset` fails in this step. -/
def CapsetFails (w : World) (move : Move) : Prop :=
  ∃ ops progress error,
    w.child = .running (.unchecked .capset :: ops) progress ∧ move = .child (.fail error)

/-- Both processes have established what they have passed, and the byte is in the pipe
only when the parent has passed its setup. -/
structure SetupInv (config : Config) (ids : Ids) (w : World) : Prop where
  config_eq : w.config = config
  ids_eq : w.ids = ids
  child : ∀ ops progress, w.child = .running ops progress →
    ∃ passed, childProgram config = passed ++ ops ∧
      ∀ op ∈ passed, op.Holds config ids w.done
  parent : ∀ ops progress, w.parent = .running ops progress →
    progress.Holds config ids w.done ∧
    ∃ passed, parentProgram config ids = passed ++ ops ∧
      ∀ op ∈ passed, op.Holds config ids w.done
  ready : w.ready → ParentReady config ids w.done

theorem launch_eq {host : Host} {config : Config} {ids : Ids} {pipe fork : Bool} {w : World}
    (h : launch host config ids pipe fork = some w) :
    validate host config = .ok () ∧
    w = { config := config, ids := ids,
          child := .running (childProgram config) .start,
          parent := .running (parentProgram config ids) ParentOp.setpgid.start } := by
  rw [launch.eq_def] at h
  split at h
  · cases h
  · rename_i u hvalid
    split at h
    · exact ⟨hvalid, (Option.some.inj h).symm⟩
    · cases h

theorem launch_inv {host : Host} {config : Config} {ids : Ids} {pipe fork : Bool} {w : World}
    (h : launch host config ids pipe fork = some w) : SetupInv config ids w := by
  obtain ⟨_, rfl⟩ := launch_eq h
  refine ⟨rfl, rfl, ?_, ?_, ?_⟩
  · intro ops progress hchild
    cases hchild
    exact ⟨[], rfl, by simp⟩
  · intro ops progress hparent
    cases hparent
    exact ⟨trivial, [], rfl, by simp⟩
  · intro hready
    cases hready

theorem unchecked_mem_childProgram {config : Config} {call : Call}
    (h : .unchecked call ∈ childProgram config) : call = .capset := by
  simp only [childProgram, mountRuntimeFilesystems, setLimits, cleanEnvironment,
    List.mem_append, List.mem_ite_nil_right, List.mem_cons, List.not_mem_nil, or_false,
    reduceCtorEq, and_false, or_self, false_or, ChildOp.unchecked.injEq] at h
  exact h.2

section Steps

variable {config : Config} {ids : Ids} {w w' : World} {answer : Answer}

/-- The child's read returns the byte only when it is in the pipe. -/
theorem ready_of_readable {op : ChildOp} {progress : Progress}
    (hop : op = .awaitReady) (hread : w.readable op answer)
    (hstep : op.step progress answer = .finished true) : w.ready := by
  subst hop
  have hanswer : answer = .ok 1 := by
    simpa [ChildOp.step] using hstep
  subst hanswer
  simpa [World.readable] using hread

theorem childStep_inv (hI : SetupInv config ids w)
    (hcap : ¬ CapsetFails w (.child answer)) (h : childStep w answer = some w') :
    SetupInv config ids w' := by
  obtain ⟨op, ops, progress, hchild, hread, hcases⟩ := childStep_cases h
  obtain ⟨passed, hprogram, hpassed⟩ := hI.child _ _ hchild
  have hnext : childProgram config = (passed ++ [op]) ++ ops := by
    rw [hprogram, List.append_assoc, List.singleton_append]
  rcases hcases with ⟨p, _, rfl⟩ | ⟨hstep, rfl⟩ | ⟨hstep, hignores, rfl⟩ | rfl
  · refine ⟨hI.config_eq, hI.ids_eq, ?_, hI.parent, hI.ready⟩
    intro ops' progress' hrunning
    cases hrunning
    exact ⟨passed, hprogram, hpassed⟩
  · have hsub : w.done ⊆ w.done ++ op.effects := List.subset_append_left _ _
    refine ⟨hI.config_eq, hI.ids_eq, ?_, ?_, fun hready => (hI.ready hready).mono hsub⟩
    · intro ops' progress' hrunning
      cases hrunning
      refine ⟨passed ++ [op], hnext, ?_⟩
      intro op' hop'
      rcases List.mem_append.mp hop' with hop' | hop'
      · exact (hpassed op' hop').mono hsub
      · obtain rfl : op' = op := by simpa using hop'
        -- only the read depends on the other process; the rest has just been applied
        by_cases hawait : op' = .awaitReady
        · have hready := ready_of_readable hawait hread hstep
          subst hawait
          exact (hI.ready hready).mono hsub
        · cases op' with
          | awaitReady => exact absurd rfl hawait
          | checked call => exact fun e he => List.mem_append_right _ he
          | unchecked call => exact fun e he => List.mem_append_right _ he
          | writeFile path value => exact fun e he => List.mem_append_right _ he
          | prepare path => exact fun e he => List.mem_append_right _ he
    · intro ops' progress' hrunning
      obtain ⟨hprogress, before, hparent, hbefore⟩ := hI.parent _ _ hrunning
      exact ⟨hprogress.mono hsub, before, hparent, fun op' hop' => (hbefore op' hop').mono hsub⟩
  · -- the one operation whose failure is ignored is `capset`, and it has not failed
    exfalso
    cases op with
    | unchecked call =>
      obtain rfl : call = .capset :=
        unchecked_mem_childProgram (by rw [hprogram]; simp)
      cases answer with
      | ok value => simp [ChildOp.step, Answer.isOk] at hstep
      | fail error => exact hcap ⟨ops, progress, error, hchild, rfl⟩
    | checked call => cases hignores
    | writeFile path value => cases hignores
    | prepare path => cases hignores
    | awaitReady => cases hignores
  · refine ⟨hI.config_eq, hI.ids_eq, ?_, hI.parent, hI.ready⟩
    intro ops' progress' hrunning
    cases hrunning

theorem mem_configureCgroup {budget : CgroupBudget} {op : ParentOp}
    (h : op ∈ configureCgroup budget ids) : ∃ path value, op = .writeFile path value := by
  rw [configureCgroup] at h
  split at h
  · cases h
  · simp only [List.mem_append, List.mem_ite_nil_right, List.mem_singleton] at h
    rcases h with ((⟨_, rfl⟩ | ⟨_, rfl⟩) | ⟨_, rfl⟩) | rfl
    all_goals exact ⟨_, _, rfl⟩

theorem signalReady_not_mem_parentSetup : .signalReady ∉ parentSetup config ids := by
  intro h
  simp only [parentSetup, List.mem_append, List.mem_ite_nil_right, List.mem_singleton,
    reduceCtorEq, and_false, or_false, false_or] at h
  obtain ⟨path, value, hop⟩ := mem_configureCgroup h
  cases hop

/-- When the parent is about to send the byte, it has passed its whole setup. -/
theorem parentReady_of_signalReady {done : List Effect} {passed ops : List ParentOp}
    (hprogram : parentProgram config ids = passed ++ .signalReady :: ops)
    (hpassed : ∀ op ∈ passed, op.Holds config ids done) : ParentReady config ids done := by
  intro op hop
  rcases List.append_eq_append_iff.mp hprogram with ⟨as, has, _⟩ | ⟨bs, hbs, htail⟩
  · exact hpassed op (has ▸ List.mem_append_left _ hop)
  · cases bs with
    | nil =>
      rw [List.append_nil] at hbs
      exact hpassed op (hbs ▸ hop)
    | cons b bs =>
      have hb : .signalReady = b := (List.cons.inj htail).1
      exact absurd (by rw [hbs, hb]; simp) signalReady_not_mem_parentSetup

theorem parentStep_inv (hI : SetupInv config ids w) (h : parentStep w answer = some w') :
    SetupInv config ids w' := by
  obtain ⟨op, ops, progress, effects, hparent, hcases⟩ := parentStep_cases h
  obtain ⟨hprogress, passed, hprogram, hpassed⟩ := hI.parent _ _ hparent
  have hsub : w.done ⊆ w.done ++ effects := List.subset_append_left _ _
  have hchild : ∀ ops' progress', w.child = .running ops' progress' →
      ∃ before, childProgram config = before ++ ops' ∧
        ∀ op ∈ before, op.Holds config ids (w.done ++ effects) := by
    intro ops' progress' hrunning
    obtain ⟨before, hbefore, hholds⟩ := hI.child _ _ hrunning
    exact ⟨before, hbefore, fun op' hop' => (hholds op' hop').mono hsub⟩
  have hkept : ∀ op' ∈ passed, op'.Holds config ids (w.done ++ effects) :=
    fun op' hop' => (hpassed op' hop').mono hsub
  obtain ⟨rfl, rfl⟩ := And.intro hI.config_eq hI.ids_eq
  rcases hcases with ⟨p, hstep, rfl⟩ | ⟨hstep, rfl⟩ | rfl
  · refine ⟨rfl, rfl, hchild, ?_, fun hready => (hI.ready hready).mono hsub⟩
    intro ops' progress' hrunning
    cases hrunning
    exact ⟨ParentOp.step_running hprogress hstep, passed, hprogram, hkept⟩
  · refine ⟨rfl, rfl, hchild, ?_, ?_⟩
    · intro ops' progress' hrunning
      cases hrunning
      refine ⟨ParentOp.startOf_holds _, passed ++ [op], ?_, ?_⟩
      · rw [hprogram, List.append_assoc, List.singleton_append]
      · intro op' hop'
        rcases List.mem_append.mp hop' with hop' | hop'
        · exact hkept op' hop'
        · obtain rfl : op' = op := by simpa using hop'
          exact ParentOp.step_finished hprogress hstep
    · intro hready
      rcases Bool.or_eq_true_iff.mp hready with hready | hsignal
      · exact (hI.ready hready).mono hsub
      · obtain rfl := of_decide_eq_true (Bool.and_eq_true_iff.mp hsignal).1
        exact parentReady_of_signalReady hprogram hkept
  · refine ⟨rfl, rfl, ?_, ?_, fun hready => (hI.ready hready).mono hsub⟩
    · intro ops' progress' hrunning
      cases hrunning
    · intro ops' progress' hrunning
      cases hrunning

theorem setupStep_inv {move : Move} {u : Unit} (hI : SetupInv config ids w)
    (hcap : ¬ CapsetFails w move) (h : setupStep w move = some (u, w')) :
    SetupInv config ids w' := by
  cases move with
  | child answer =>
    obtain ⟨v, hv, heq⟩ := Option.map_eq_some_iff.mp h
    cases heq
    exact childStep_inv hI hcap hv
  | parent answer =>
    obtain ⟨v, hv, heq⟩ := Option.map_eq_some_iff.mp h
    cases heq
    exact parentStep_inv hI hv

end Steps

/-! ## Whole runs -/

theorem forall_mem_ite_nil {α : Type} {c : Prop} [Decidable c] {l : List α} {P : α → Prop} :
    (∀ x ∈ (if c then l else []), P x) ↔ (c → ∀ x ∈ l, P x) := by
  split
  · rename_i hc
    exact ⟨fun h _ => h, fun h => h hc⟩
  · rename_i hc
    exact ⟨fun _ h => absurd h hc, fun _ => by simp⟩

theorem contained_of_holds {config : Config} {ids : Ids} {done : List Effect}
    (hroot : config.readOnlyRoot → config.mountNamespace)
    (hchild : ∀ op ∈ childProgram config, op.Holds config ids done)
    (hcgroup : config.cgroup.path ≠ [] →
      ∀ op ∈ configureCgroup config.cgroup ids, op.Holds config ids done)
    (hids : config.userNamespace → IdsMapped config ids done) :
    Contained config ids done := by
  simp only [childProgram, mountRuntimeFilesystems, setLimits, cleanEnvironment,
    List.forall_mem_append, forall_mem_ite_nil, List.forall_mem_cons, ChildOp.Holds,
    ChildOp.effects, List.not_mem_nil, false_imp_iff, implies_true, and_true,
    true_and] at hchild
  obtain ⟨⟨⟨⟨⟨⟨⟨⟨⟨⟨⟨⟨_, huser⟩, hmount⟩, hrootfs⟩, htmp⟩, _⟩, hnet⟩, hcaps⟩, hprivs⟩, hseccomp⟩,
    ⟨⟨hcpu, hspace⟩, hprocesses⟩, hfile⟩, hunprivileged⟩, henv⟩ := hchild
  have hfiles : config.cgroup.path ≠ [] → _ := fun h => by
    have hops := hcgroup h
    simp only [configureCgroup, if_neg h, List.forall_mem_append, forall_mem_ite_nil,
      List.forall_mem_singleton, ParentOp.Holds] at hops
    exact hops
  constructor
  case userNamespace => exact fun h => ⟨(huser h).1, (huser h).2.1, hids h⟩
  case mountNamespace => exact fun h => ⟨(hmount h).1.1, (hmount h).1.2, htmp h⟩
  case readOnlyRoot => exact fun h => (hmount (hroot h)).2 h
  case rootfs => exact fun h => (hrootfs h).1
  case mountProc => exact fun h hproc => (hrootfs h).2.1 hproc
  case mountRun => exact fun h hrun => (hrootfs h).2.2 hrun
  case networkNamespace => exact hnet
  case dropCapabilities => exact hcaps
  case noNewPrivileges => exact hprivs
  case seccomp => exact hseccomp
  case cpuSeconds => exact hcpu
  case addressSpaceBytes => exact hspace
  case maxProcesses => exact hprocesses
  case maxFileBytes => exact hfile
  case dropToUnprivilegedUser => exact hunprivileged
  case cleanEnvironment =>
    intro h
    obtain ⟨hclear, hpath, hhome, htmpdir, hlang, hall⟩ := henv h
    refine ⟨hclear, ?_⟩
    simp only [List.forall_mem_cons, List.not_mem_nil, false_imp_iff, implies_true, and_true]
    exact ⟨hpath, hhome, htmpdir, hlang, hall⟩
  case memoryMax =>
    intro h hmax
    exact (hfiles h).1.1.1 hmax
  case pidsMax =>
    intro h hmax
    exact (hfiles h).1.1.2 hmax
  case cpuMax =>
    intro h hquota
    exact (hfiles h).1.2 hquota
  case cgroupProcs =>
    intro h
    exact (hfiles h).2

/-- Whatever the system calls answer and however the two processes interleave, the child
starts its target only under every control that the configuration asks for, on every
run on which `capset` does not fail, if the configuration asks for a cgroup only with a
user namespace and for a read-only root only with a mount namespace. -/
theorem atTarget_contained {host : Host} {config : Config} {ids : Ids} {pipe fork : Bool}
    {w w' : World} {moves : List Move} {outputs : List Unit}
    (hlaunch : launch host config ids pipe fork = some w)
    (hcgroup : config.cgroup.path ≠ [] → config.userNamespace)
    (hroot : config.readOnlyRoot → config.mountNamespace)
    (hcapset : Machine.Along setupStep (fun w move => ¬ CapsetFails w move) w moves)
    (hrun : Machine.run setupStep w moves = some (outputs, w')) (htarget : w'.AtTarget) :
    Contained config ids w'.done := by
  have hinv : SetupInv config ids w' :=
    Machine.run_invariant_along (SetupInv config ids) _
      (fun _ _ _ _ hI hcap hstep => setupStep_inv hI hcap hstep) (launch_inv hlaunch)
      hcapset hrun
  obtain ⟨progress, hchild⟩ := htarget
  obtain ⟨passed, hprogram, hpassed⟩ := hinv.child _ _ hchild
  rw [List.append_nil] at hprogram
  subst hprogram
  have hready : config.userNamespace → ParentReady config ids w'.done :=
    fun h => hpassed .awaitReady (by simp [childProgram, h])
  apply contained_of_holds hroot hpassed
  · intro hpath op hop
    exact hready (hcgroup hpath) op (by simp [parentSetup, hop])
  · intro huser
    exact hready huser .mapIds (by simp [parentSetup, huser])

/-- A configuration with both namespaces asks for nothing that its child does not wait for. -/
theorem contained_of_namespaces {host : Host} {config : Config} {ids : Ids} {pipe fork : Bool}
    {w w' : World} {moves : List Move} {outputs : List Unit} (huser : config.userNamespace = true)
    (hmount : config.mountNamespace = true) (hlaunch : launch host config ids pipe fork = some w)
    (hcapset : Machine.Along setupStep (fun w move => ¬ CapsetFails w move) w moves)
    (hrun : Machine.run setupStep w moves = some (outputs, w')) (htarget : w'.AtTarget) :
    Contained config ids w'.done := by
  have hinv : SetupInv config ids w' :=
    Machine.run_invariant_along (SetupInv config ids) _
      (fun _ _ _ _ hI hcap hstep => setupStep_inv hI hcap hstep) (launch_inv hlaunch)
      hcapset hrun
  obtain ⟨progress, hchild⟩ := htarget
  obtain ⟨passed, hprogram, hpassed⟩ := hinv.child _ _ hchild
  rw [List.append_nil] at hprogram
  subst hprogram
  have hready : ParentReady config ids w'.done :=
    hpassed .awaitReady (by simp [childProgram, huser])
  apply contained_of_holds (fun _ => hmount) hpassed
  · intro hpath op hop
    exact hready op (by simp [parentSetup, hop])
  · intro _
    exact hready .mapIds (by simp [parentSetup, huser])

/-- What is applied at the end of a run that is accepted and ends at the start of the
target. -/
def targetEffects (config : Config) (ids : Ids) (moves : List Move) : Option (List Effect) := do
  let w ← launch {} config ids true true
  let (_, w') ← Machine.run setupStep w moves
  if w'.child = .running [] .start then some w'.done else none

theorem exists_of_targetEffects {config : Config} {ids : Ids} {moves : List Move}
    {P : List Effect → Bool} (h : (targetEffects config ids moves).any P) :
    ∃ w w' outputs, launch {} config ids true true = some w ∧
      Machine.run setupStep w moves = some (outputs, w') ∧ w'.AtTarget ∧ P w'.done := by
  obtain ⟨done, hdone, hP⟩ := (Option.any_eq_true ..).mp h
  obtain ⟨w, hlaunch, hrest⟩ := Option.bind_eq_some_iff.mp hdone
  obtain ⟨⟨outputs, w'⟩, hrun, hend⟩ := Option.bind_eq_some_iff.mp hrest
  dsimp only at hend
  by_cases hchild : w'.child = .running [] .start
  · rw [if_pos hchild] at hend
    obtain rfl := Option.some.inj hend
    exact ⟨w, w', outputs, hlaunch, hrun, ⟨.start, hchild⟩, hP⟩
  · rw [if_neg hchild] at hend
    cases hend

def launchIds : Ids := { pid := 4242, uid := 1000, gid := 1000 }

/-- A setup with a user namespace on which nothing fails. The child works up to its read from
the pipe, then the parent does all that it has to do, and then the child goes on. -/
def quietSetup (cgroup rest : List Nat) : List Move :=
  -- four calls, `unshare`, the three calls of `write_file`
  let alone : List Nat := [0, 0, 0, 0, 0, 3, 5, 0]
  -- `setpgid`, the files of the cgroup, the two helpers, the byte, the close
  let parent : List Nat := 0 :: cgroup ++ [4243, 0, 4244, 0, 1, 0]
  alone.map (fun value => Move.child (.ok value)) ++
    parent.map (fun value => Move.parent (.ok value)) ++
    (1 :: rest).map fun value => Move.child (.ok value)

theorem fail_not_mem_quietSetup {cgroup rest : List Nat} {error : Errno} :
    .child (.fail error) ∉ quietSetup cgroup rest := by
  simp [quietSetup]

/-- The setup of a child with a network namespace, and two files for its cgroup. -/
def quietMoves : List Move := quietSetup [3, 2, 0, 3, 4, 0] (List.replicate 8 0)

theorem atTarget_contained_quiet :
    let config : Config :=
      { networkNamespace := true,
        cgroup := { path := "/sys/fs/cgroup/x".toList, pidsMax := 64 } }
    ∃ w w' outputs, launch {} config launchIds true true = some w ∧
      Machine.run setupStep w quietMoves = some (outputs, w') ∧ w'.AtTarget ∧
      Contained config launchIds w'.done := by
  intro config
  obtain ⟨w, w', outputs, hlaunch, hrun, htarget, _⟩ :=
    exists_of_targetEffects (P := fun _ => true)
      (show (targetEffects config launchIds quietMoves).any _ by decide)
  refine ⟨w, w', outputs, hlaunch, hrun, htarget, ?_⟩
  refine atTarget_contained hlaunch (by decide) (by decide) ?_ hrun htarget
  apply Machine.along_of_forall_mem
  rintro move hmem v ⟨ops, progress, error, _, rfl⟩
  exact fail_not_mem_quietSetup hmem

/-- The default configuration, with a `capset` that fails with `EPERM`. -/
def capsetFailsMoves : List Move :=
  quietSetup [] (List.replicate 5 0) ++ [.child (.fail 1), .child (.ok 0)]

/-- A configuration without namespaces whose child never waits for its parent. -/
def cgroupOnly : Config :=
  { userNamespace := false, mountNamespace := false, readOnlyRoot := false,
    cgroup := { path := "/sys/fs/cgroup/x".toList, pidsMax := 64 } }

def childOnlyMoves : List Move := List.replicate 6 (.child (.ok 0))

/-- A configuration that asks for a read-only root and no mount namespace. -/
def rootOnly : Config := { userNamespace := false, mountNamespace := false }

/-- These moves bring the child to its target outside of a control. -/
def Escapes (config : Config) (moves : List Move) : Prop :=
  ∃ w w' outputs, launch {} config launchIds true true = some w ∧
    Machine.run setupStep w moves = some (outputs, w') ∧ w'.AtTarget ∧
    ¬ Contained config launchIds w'.done

/-- The child starts its target with its capabilities when `capset` fails, outside its
cgroup when it is faster than its parent, and on a writable root without a mount
namespace. -/
theorem atTarget_not_contained :
    Escapes {} capsetFailsMoves ∧ Escapes cgroupOnly childOnlyMoves ∧
      Escapes rootOnly childOnlyMoves := by
  refine ⟨?_, ?_, ?_⟩
  · obtain ⟨w, w', outputs, hlaunch, hrun, htarget, hdone⟩ :=
      exists_of_targetEffects (P := fun done => .called .capset ∉ done)
        (show (targetEffects {} launchIds capsetFailsMoves).any _ by decide)
    refine ⟨w, w', outputs, hlaunch, hrun, htarget, ?_⟩
    intro hcontained
    exact of_decide_eq_true hdone (hcontained.dropCapabilities rfl)
  · obtain ⟨w, w', outputs, hlaunch, hrun, htarget, hdone⟩ :=
      exists_of_targetEffects
        (P := fun done => .wrote (LexicalPath.append cgroupOnly.cgroup.path "cgroup.procs".toList)
          (Text.ofNat launchIds.pid) ∉ done)
        (show (targetEffects cgroupOnly launchIds childOnlyMoves).any _ by decide)
    refine ⟨w, w', outputs, hlaunch, hrun, htarget, ?_⟩
    intro hcontained
    exact of_decide_eq_true hdone (hcontained.cgroupProcs (by decide))
  · obtain ⟨w, w', outputs, hlaunch, hrun, htarget, hdone⟩ :=
      exists_of_targetEffects (P := fun done => .called bindRoot ∉ done)
        (show (targetEffects rootOnly launchIds childOnlyMoves).any _ by decide)
    refine ⟨w, w', outputs, hlaunch, hrun, htarget, ?_⟩
    intro hcontained
    exact of_decide_eq_true hdone (hcontained.readOnlyRoot rfl).1

end ExeCell.Sandbox
