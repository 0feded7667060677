import ExeCell.Sandbox.Completion
import ExeCell.Sandbox.Seccomp

/-!
# The child behind its own filter

The child installs its seccomp filter before it sets its limits and gives up its user, so that
these last calls of its setup have to pass the filter. The kernel answers a call that does not
pass with `EPERM`, and then the child ends.

`target_behind_filter_iff` says for which lists a target is ever started. The list of the
package commands is one of them, for every configuration (`passes_default`).
-/

namespace ExeCell.Sandbox

open Bpf

/-! ## The kernel with the filter -/

/-- The number of the system call that is made for a call of the child; the environment is
changed without one. The C library makes `setrlimit` out of `prlimit64` or of the system call
of its name. -/
def Call.number (prlimit : Bool) : Call → Option Word
  | .setpgid => some 109
  | .getppidIsParent | .getppidUnchanged => some 110
  | .setParentDeathSignal | .setNoNewPrivs => some 157
  | .unshare _ => some 272
  | .mount .. => some 165
  | .chroot _ => some 161
  | .chdir _ => some 80
  | .capset => some 126
  | .seccomp _ => some 317
  | .setrlimit .. => some (if prlimit then 302 else 160)
  | .setresgid _ => some 119
  | .setresuid _ => some 117
  | .clearenv | .setenv .. => none

/-- The program that was installed for the list does not let the call through. -/
def Refuses (allowlist : List Int) (nr : Word) : Prop :=
  exec (installed allowlist) ({ nr := nr, arch := auditArchX86_64 } : SeccompData).word ≠
    .returned retAllow

/-- The kernel installs no program that it does not accept, and answers with an error what an
installed program refuses. -/
structure Obeys (prlimit : Bool) (w : World) (move : Move) : Prop where
  installs : ∀ allowlist ops progress value,
    w.child = .running (.checked (.seccomp allowlist) :: ops) progress →
    move = .child (.ok value) → Accepted (installed allowlist)
  filtered : ∀ call ops progress nr value, w.child = .running (.checked call :: ops) progress →
    call.number prlimit = some nr →
    .called (.seccomp w.config.seccompAllowlist) ∈ w.done →
    move = .child (.ok value) → ¬ Refuses w.config.seccompAllowlist nr

/-! ## The calls behind the filter -/

/-- What the child does behind its filter. -/
def behindFilter (config : Config) : List ChildOp :=
  setLimits config ++
    (if config.dropToUnprivilegedUser then
      [.checked (.setresgid 1000), .checked (.setresuid 1000)] else [] : List ChildOp) ++
    (if config.cleanEnvironment then cleanEnvironment else [])

/-- The list has room for its program, and all calls behind the filter are on it. -/
structure PassesItself (prlimit : Bool) (config : Config) : Prop where
  short : 2 * config.seccompAllowlist.length + 5 ≤ maxInstructions
  allows : ∀ call nr, .checked call ∈ behindFilter config → call.number prlimit = some nr →
    Allows config.seccompAllowlist nr

section Program

variable {config : Config} {prlimit : Bool}

theorem not_refuses_iff {allowlist : List Int} {nr : Word}
    (h : 2 * allowlist.length + 5 ≤ maxInstructions) :
    ¬ Refuses allowlist nr ↔ Allows allowlist nr := by
  rw [Refuses, not_not, installed_eq h, exec_filter]
  simp only [answer, ne_eq, not_true_eq_false, if_false]
  by_cases hallows : Allows allowlist nr
  · simp [hallows]
  · simp only [hallows, if_false, iff_false]
    decide

theorem ne_seccomp_behindFilter :
    ∀ op ∈ behindFilter config, ∀ allowlist, op ≠ .checked (.seccomp allowlist) := by
  simp only [behindFilter, setLimits, cleanEnvironment, List.forall_mem_append,
    forall_mem_ite_nil, List.forall_mem_cons, List.not_mem_nil, ChildOp.checked.injEq,
    reduceCtorEq, ne_eq, not_false_eq_true, false_imp_iff, implies_true, and_true]

/-- The program of the child around its filter. -/
theorem childProgram_around (config : Config) :
    ∃ front, childProgram config = front ++
        ((if config.seccompAllowlist ≠ [] then [.checked (.seccomp config.seccompAllowlist)]
          else []) ++ behindFilter config) ∧
      ∀ op ∈ front, ∀ allowlist, op ≠ .checked (.seccomp allowlist) := by
  refine ⟨?front, ?around, ?none⟩
  case around =>
    rw [childProgram, behindFilter, ← List.append_assoc, ← List.append_assoc, ← List.append_assoc]
  case none =>
    simp only [mountRuntimeFilesystems, mountPrivate, bindRoot, remountRootReadOnly, mountTmp,
      List.forall_mem_append, forall_mem_ite_nil, List.forall_mem_cons, List.not_mem_nil,
      ChildOp.checked.injEq, reduceCtorEq, ne_eq, not_false_eq_true, false_imp_iff, implies_true,
      and_true]

theorem seccomp_of_mem {allowlist : List Int}
    (h : .checked (.seccomp allowlist) ∈ childProgram config) :
    allowlist = config.seccompAllowlist ∧ config.seccompAllowlist ≠ [] := by
  obtain ⟨front, hprogram, hfront⟩ := childProgram_around config
  rw [hprogram] at h
  rcases List.mem_append.mp h with hmem | h
  · exact absurd rfl (hfront _ hmem allowlist)
  rcases List.mem_append.mp h with hmem | hmem
  · split at hmem
    · rename_i hlist
      cases List.mem_singleton.mp hmem
      exact ⟨rfl, hlist⟩
    · cases hmem
  · exact absurd rfl (ne_seccomp_behindFilter _ hmem allowlist)

/-- The filter is either still ahead of the child, with everything behind it, or passed. -/
theorem filter_ahead_or_passed {passed ops : List ChildOp} (h : config.seccompAllowlist ≠ [])
    (hprogram : childProgram config = passed ++ ops) :
    (∃ before, ops =
        before ++ .checked (.seccomp config.seccompAllowlist) :: behindFilter config ∧
        .checked (.seccomp config.seccompAllowlist) ∉ passed) ∨
      (ops <:+ behindFilter config ∧ .checked (.seccomp config.seccompAllowlist) ∈ passed) := by
  obtain ⟨front, haround, hfront⟩ := childProgram_around config
  have hnone : .checked (.seccomp config.seccompAllowlist) ∉ front :=
    fun hmem => hfront _ hmem _ rfl
  rw [if_pos h, List.singleton_append, hprogram] at haround
  rcases List.append_eq_append_iff.mp haround with ⟨between, rfl, hops⟩ | ⟨between, rfl, hback⟩
  · refine Or.inl ⟨between, hops, ?_⟩
    exact fun hmem => hnone (List.mem_append_left _ hmem)
  · cases between with
    | nil => exact Or.inl ⟨[], hback.symm, by rwa [List.append_nil]⟩
    | cons op between =>
      obtain ⟨rfl, hbehind⟩ := List.cons.inj hback
      refine Or.inr ⟨⟨between, hbehind.symm⟩, ?_⟩
      exact List.mem_append_right _ List.mem_cons_self

theorem mem_of_filter_ahead {passed ops : List ChildOp} {call : Call}
    (h : config.seccompAllowlist ≠ []) (hprogram : childProgram config = passed ++ .checked call :: ops)
    (hfilter : .checked (.seccomp config.seccompAllowlist) ∈ ChildOp.checked call :: ops)
    (hbehind : .checked call ∈ behindFilter config) : .checked call ∈ ops := by
  rcases filter_ahead_or_passed h hprogram with ⟨before, hops, _⟩ | ⟨hsuffix, _⟩
  · cases before with
    | nil =>
      exact absurd (List.cons.inj hops).1 (ne_seccomp_behindFilter _ hbehind _)
    | cons op before =>
      obtain ⟨_, rfl⟩ := List.cons.inj hops
      exact List.mem_append_right _ (List.mem_cons_of_mem _ hbehind)
  · exact absurd rfl (ne_seccomp_behindFilter _ (hsuffix.subset hfilter) _)

/-- The one call whose answer the child does not look at. -/
theorem capset_of_unchecked :
    ∀ op ∈ childProgram config, ∀ call, op = .unchecked call → call = .capset := by
  simp only [childProgram, setLimits, cleanEnvironment, mountRuntimeFilesystems,
    List.forall_mem_append, forall_mem_ite_nil, List.forall_mem_cons, List.not_mem_nil,
    ChildOp.unchecked.injEq, reduceCtorEq, false_imp_iff, implies_true, and_true, true_and]
  rintro _ call rfl
  rfl

theorem number_behindFilter : ∀ op ∈ behindFilter config, ∀ call, op = .checked call →
    ∀ nr, call.number prlimit = some nr →
      nr = (if prlimit then 302 else 160) ∨ nr = 119 ∨ nr = 117 := by
  simp only [behindFilter, setLimits, cleanEnvironment, List.forall_mem_append,
    forall_mem_ite_nil, List.forall_mem_cons, List.not_mem_nil, ChildOp.checked.injEq,
    forall_eq', Call.number, Option.some.injEq, true_or, or_true, reduceCtorEq, false_imp_iff,
    implies_true, and_true]

end Program

/-! ## One step -/

section Steps

variable {config : Config} {ids : Ids} {w w' : World} {answer : Answer}

def ParentResult.effects : ParentResult → List Effect
  | .running _ effects => effects
  | .finished _ effects => effects

theorem writeMap_effects {path value : Text} {resume : Progress → IdProgress} {next : ParentResult}
    {progress : Progress} {e : Effect}
    (h : e ∈ (writeMap path value resume next progress answer).effects) :
    e = .wrote path value ∨ e ∈ next.effects := by
  unfold writeMap at h
  split at h
  · cases h
  · cases h
  · cases next with
    | running progress effects => exact List.mem_cons.mp h
    | finished ok effects => exact List.mem_cons.mp h

/-- The parent leaves files and maps behind, and no call of the child. -/
theorem mapIdsStep_effects {progress : IdProgress} {call : Call} :
    .called call ∉ (mapIdsStep config ids progress answer).effects := by
  intro h
  cases progress with
  | forkUid => cases answer <;> cases h
  | forkGid => cases answer <;> cases h
  | waitUid =>
    rw [mapIdsStep] at h
    split at h
    · cases List.mem_singleton.mp h
    · cases h
  | waitGid =>
    rw [mapIdsStep] at h
    split at h
    · cases List.mem_singleton.mp h
    · cases h
  | writeUid progress =>
    rw [mapIdsStep] at h
    rcases writeMap_effects h with hwrote | hnext
    · cases hwrote
    · cases hnext
  | writeGid progress =>
    rw [mapIdsStep] at h
    rcases writeMap_effects h with hwrote | hnext
    · cases hwrote
    · cases hnext

theorem ParentOp.effects_ne_called {op : ParentOp} {progress : ParentProgress} {call : Call} :
    .called call ∉ (op.step config ids progress answer).effects := by
  intro h
  cases op with
  | setpgid => cases h
  | signalReady => cases h
  | closeReady => cases h
  | mapIds =>
    cases progress with
    | plain progress => cases h
    | ids progress => exact mapIdsStep_effects h
  | writeFile path value =>
    cases progress with
    | ids progress => cases h
    | plain progress =>
      rw [ParentOp.step] at h
      split at h
      · cases h
      · cases List.mem_singleton.mp h
      · cases h

/-- What a step does to the child. -/
inductive ChildMoves (w : World) (move : Move) (w' : World) (ops : List ChildOp) : Prop where
  /-- It has not come to the end of an operation. -/
  | stays (progress : Progress) (child : w.child = .running ops progress)
      (kept : w.done ⊆ w'.done)
      (called : ∀ call, .called call ∈ w'.done → .called call ∈ w.done)
  | passes (op : ChildOp) (progress : Progress) (child : w.child = .running (op :: ops) progress)
      (kept : w.done ⊆ w'.done)
      (called : ∀ call, .called call ∈ w'.done →
        .called call ∈ w.done ∨ op = .checked call ∨ op = .unchecked call)
      (checked : ∀ call, op = .checked call →
        .called call ∈ w'.done ∧ ∃ value, move = .child (.ok value))
      (unchecked : ∀ call, op = .unchecked call →
        ∃ answer, move = .child answer ∧ (answer.isOk = true → .called call ∈ w'.done))

theorem childStep_moves {ops : List ChildOp} {progress : Progress}
    (h : childStep w answer = some w') (hchild : w'.child = .running ops progress) :
    ChildMoves w (.child answer) w' ops := by
  obtain ⟨op, later, p, hrunning, _, hcases⟩ := childStep_cases h
  rcases hcases with ⟨q, _, rfl⟩ | ⟨hstep, rfl⟩ | ⟨hstep, hignores, rfl⟩ | rfl
  · cases hchild
    exact .stays p hrunning (List.Subset.refl _) fun _ hcall => hcall
  · cases hchild
    refine .passes op p hrunning (List.subset_append_left _ _) ?_ ?_ ?_
    · intro call hcall
      rcases List.mem_append.mp hcall with hbefore | heffect
      · exact Or.inl hbefore
      · apply Or.inr
        cases op with
        | checked call' =>
          cases List.mem_singleton.mp heffect
          exact Or.inl rfl
        | unchecked call' =>
          cases List.mem_singleton.mp heffect
          exact Or.inr rfl
        | writeFile path value => cases List.mem_singleton.mp heffect
        | prepare path => cases heffect
        | awaitReady => cases heffect
    · rintro call rfl
      refine ⟨List.mem_append_right _ (List.mem_singleton_self _), ?_⟩
      cases answer with
      | ok value => exact ⟨value, rfl⟩
      | fail error => cases hstep
    · rintro call rfl
      exact ⟨answer, rfl, fun _ => List.mem_append_right _ (List.mem_singleton_self _)⟩
  · cases hchild
    refine .passes op p hrunning (List.Subset.refl _) (fun _ hcall => Or.inl hcall) ?_ ?_
    · rintro call rfl
      cases hignores
    · rintro call rfl
      have hfailed : answer.isOk = false := OpResult.finished.inj hstep
      refine ⟨answer, rfl, ?_⟩
      intro hok
      rw [hfailed] at hok
      cases hok
  · cases hchild

theorem parentStep_moves {ops : List ChildOp} {progress : Progress}
    (h : parentStep w answer = some w') (hchild : w'.child = .running ops progress) :
    ChildMoves w (.parent answer) w' ops := by
  obtain ⟨op, later, p, effects, _, hcases⟩ := parentStep_cases h
  have hkeeps : ∀ result : ParentResult, op.step w.config w.ids p answer = result →
      ∀ call, .called call ∈ w.done ++ result.effects → .called call ∈ w.done := by
    rintro result rfl call hcall
    exact (List.mem_append.mp hcall).resolve_right ParentOp.effects_ne_called
  rcases hcases with ⟨q, hstep, rfl⟩ | ⟨hstep, rfl⟩ | rfl
  · exact .stays progress hchild (List.subset_append_left _ _) (hkeeps _ hstep)
  · exact .stays progress hchild (List.subset_append_left _ _) (hkeeps _ hstep)
  · cases hchild

theorem setupStep_moves {move : Move} {u : Unit} {ops : List ChildOp} {progress : Progress}
    (h : setupStep w move = some (u, w')) (hchild : w'.child = .running ops progress) :
    ChildMoves w move w' ops := by
  cases move with
  | child answer =>
    obtain ⟨v, hv, heq⟩ := Option.map_eq_some_iff.mp h
    cases heq
    exact childStep_moves hv hchild
  | parent answer =>
    obtain ⟨v, hv, heq⟩ := Option.map_eq_some_iff.mp h
    cases heq
    exact parentStep_moves hv hchild

end Steps

/-! ## Whole runs -/

section Runs

variable {config : Config} {prlimit : Bool} {w w' : World} {move : Move} {u : Unit}

theorem config_setupStep (h : setupStep w move = some (u, w')) : w'.config = w.config := by
  cases move with
  | child answer =>
    obtain ⟨v, hv, heq⟩ := Option.map_eq_some_iff.mp h
    cases heq
    obtain ⟨_, _, _, _, _, hcases⟩ := childStep_cases hv
    rcases hcases with ⟨_, _, rfl⟩ | ⟨_, rfl⟩ | ⟨_, _, rfl⟩ | rfl <;> rfl
  | parent answer =>
    obtain ⟨v, hv, heq⟩ := Option.map_eq_some_iff.mp h
    cases heq
    obtain ⟨_, _, _, _, _, hcases⟩ := parentStep_cases hv
    rcases hcases with ⟨_, _, rfl⟩ | ⟨_, rfl⟩ | rfl <;> rfl

/-- The child works through its program, and its filter is installed only behind the
operation that installs it. -/
structure InOrder (config : Config) (w : World) : Prop where
  config_eq : w.config = config
  child : ∀ ops progress, w.child = .running ops progress →
    ∃ passed, childProgram config = passed ++ ops ∧
      (.called (.seccomp config.seccompAllowlist) ∈ w.done →
        .checked (.seccomp config.seccompAllowlist) ∈ passed)

theorem setupStep_inOrder (hI : InOrder config w) (h : setupStep w move = some (u, w')) :
    InOrder config w' := by
  refine ⟨(config_setupStep h).trans hI.config_eq, ?_⟩
  intro ops progress hchild
  cases setupStep_moves h hchild with
  | stays p hbefore _ hcalled =>
    obtain ⟨passed, hprogram, hinstalled⟩ := hI.child ops p hbefore
    exact ⟨passed, hprogram, fun hdone => hinstalled (hcalled _ hdone)⟩
  | passes op p hbefore _ hcalled hchecked =>
    obtain ⟨passed, hprogram, hinstalled⟩ := hI.child (op :: ops) p hbefore
    refine ⟨passed ++ [op], by rw [hprogram, List.append_assoc, List.singleton_append], ?_⟩
    intro hdone
    rcases hcalled _ hdone with hearlier | rfl | rfl
    · exact List.mem_append_left _ (hinstalled hearlier)
    · exact List.mem_append_right _ (List.mem_singleton_self _)
    · -- the answer to the filter is always looked at
      have hmem : .unchecked (.seccomp config.seccompAllowlist) ∈ childProgram config := by
        rw [hprogram]
        exact List.mem_append_right _ List.mem_cons_self
      cases capset_of_unchecked _ hmem _ rfl

/-- What the kernel has let through: the filter, when it is passed, and every call behind it. -/
structure LetThrough (prlimit : Bool) (config : Config) (w : World) : Prop extends
    InOrder config w where
  installed : ∀ ops progress, w.child = .running ops progress →
    .checked (.seccomp config.seccompAllowlist) ∈ ops ∨
      (.called (.seccomp config.seccompAllowlist) ∈ w.done ∧
        Accepted (installed config.seccompAllowlist))
  allowed : ∀ ops progress, w.child = .running ops progress →
    ∀ call nr, .checked call ∈ behindFilter config → call.number prlimit = some nr →
      .checked call ∈ ops ∨ ¬ Refuses config.seccompAllowlist nr

theorem setupStep_letThrough (hlist : config.seccompAllowlist ≠ [])
    (hI : LetThrough prlimit config w) (hobeys : Obeys prlimit w move)
    (h : setupStep w move = some (u, w')) : LetThrough prlimit config w' := by
  refine { setupStep_inOrder hI.toInOrder h with installed := ?_, allowed := ?_ }
  · intro ops progress hchild
    cases setupStep_moves h hchild with
    | stays p hbefore hkept _ =>
      rcases hI.installed ops p hbefore with hahead | ⟨hdone, haccepted⟩
      · exact Or.inl hahead
      · exact Or.inr ⟨hkept hdone, haccepted⟩
    | passes op p hbefore hkept _ hchecked =>
      rcases hI.installed (op :: ops) p hbefore with hahead | ⟨hdone, haccepted⟩
      · rcases List.mem_cons.mp hahead with rfl | hlater
        · obtain ⟨hcalled, value, hmove⟩ := hchecked _ rfl
          exact Or.inr ⟨hcalled, hobeys.installs _ ops p value hbefore hmove⟩
        · exact Or.inl hlater
      · exact Or.inr ⟨hkept hdone, haccepted⟩
  · intro ops progress hchild call nr hbehind hnumber
    cases setupStep_moves h hchild with
    | stays p hbefore _ _ => exact hI.allowed ops p hbefore call nr hbehind hnumber
    | passes op p hbefore _ _ hchecked =>
      rcases hI.allowed (op :: ops) p hbefore call nr hbehind hnumber with hahead | hallowed
      · rcases List.mem_cons.mp hahead with rfl | hlater
        · obtain ⟨_, value, hmove⟩ := hchecked call rfl
          rcases hI.installed _ p hbefore with hfilter | ⟨hdone, _⟩
          · -- the filter is ahead, and so is everything behind it
            obtain ⟨passed, hprogram, _⟩ := hI.child _ p hbefore
            exact Or.inl (mem_of_filter_ahead hlist hprogram hfilter hbehind)
          · apply Or.inr
            rw [← hI.config_eq] at hdone ⊢
            exact hobeys.filtered call ops p nr value hbefore hnumber hdone hmove
        · exact Or.inl hlater
      · exact Or.inr hallowed

theorem launch_inOrder {host : Host} {ids : Ids} {pipe fork : Bool}
    (h : launch host config ids pipe fork = some w) : InOrder config w := by
  obtain ⟨_, rfl⟩ := launch_eq h
  refine ⟨rfl, ?_⟩
  intro ops progress hchild
  cases hchild
  exact ⟨[], rfl, fun hdone => nomatch hdone⟩

theorem launch_letThrough {host : Host} {ids : Ids} {pipe fork : Bool}
    (hlist : config.seccompAllowlist ≠ []) (h : launch host config ids pipe fork = some w) :
    LetThrough prlimit config w := by
  have horder := launch_inOrder h
  obtain ⟨_, rfl⟩ := launch_eq h
  have hahead : ∃ before, childProgram config =
      before ++ .checked (.seccomp config.seccompAllowlist) :: behindFilter config := by
    have hstart : childProgram config = [] ++ childProgram config := rfl
    rcases filter_ahead_or_passed hlist hstart with ⟨before, hops, _⟩ | ⟨_, hpassed⟩
    · exact ⟨before, hops⟩
    · cases hpassed
  obtain ⟨before, hprogram⟩ := hahead
  refine { horder with installed := ?_, allowed := ?_ }
  · intro ops progress hchild
    cases hchild
    rw [hprogram]
    exact Or.inl (List.mem_append_right _ List.mem_cons_self)
  · intro ops progress hchild call nr hbehind _
    cases hchild
    rw [hprogram]
    exact Or.inl (List.mem_append_right _ (List.mem_cons_of_mem _ hbehind))

/-- A child at its target has passed the filter and everything behind it. -/
theorem LetThrough.passesItself (h : LetThrough prlimit config w) (htarget : w.AtTarget) :
    PassesItself prlimit config := by
  obtain ⟨progress, hchild⟩ := htarget
  have hshort : 2 * config.seccompAllowlist.length + 5 ≤ maxInstructions := by
    rcases h.installed [] progress hchild with hahead | ⟨_, haccepted⟩
    · cases hahead
    · by_contra hlong
      exact not_accepted_installed (by omega) haccepted
  refine ⟨hshort, ?_⟩
  intro call nr hbehind hnumber
  rcases h.allowed [] progress hchild call nr hbehind hnumber with hahead | hallowed
  · cases hahead
  · exact (not_refuses_iff hshort).mp hallowed

/-- A run that the kernel keeps to, and that comes to the target, has passed everything. -/
theorem passesItself_of_run {host : Host} {ids : Ids} {pipe fork : Bool} {moves : List Move}
    {outputs : List Unit} (hlist : config.seccompAllowlist ≠ [])
    (hlaunch : launch host config ids pipe fork = some w)
    (hobeys : Machine.Along setupStep (Obeys prlimit) w moves)
    (hrun : Machine.run setupStep w moves = some (outputs, w')) (htarget : w'.AtTarget) :
    PassesItself prlimit config := by
  have hend : LetThrough prlimit config w' :=
    Machine.run_invariant_along (LetThrough prlimit config) _
      (fun _ _ _ _ hI hobeys hstep => setupStep_letThrough hlist hI hobeys hstep)
      (launch_letThrough hlist hlaunch) hobeys hrun
  exact hend.passesItself htarget

/-- The kernel has nothing against any answer to a child whose list lets it pass. -/
theorem obeys_of_passesItself (hI : InOrder config w)
    (h : config.seccompAllowlist ≠ [] → PassesItself prlimit config) : Obeys prlimit w move := by
  constructor
  · intro allowlist ops p value hchild _
    obtain ⟨passed, hprogram, _⟩ := hI.child _ p hchild
    have hmem : .checked (.seccomp allowlist) ∈ childProgram config := by
      rw [hprogram]
      exact List.mem_append_right _ List.mem_cons_self
    obtain ⟨rfl, hlist⟩ := seccomp_of_mem hmem
    rw [installed_eq (h hlist).short]
    exact accepted_filter (h hlist).short
  · intro call ops p nr value hchild hnumber hdone _
    obtain ⟨passed, hprogram, hinstalled⟩ := hI.child _ p hchild
    rw [hI.config_eq] at hdone ⊢
    have hpassed := hinstalled hdone
    have hmem : .checked (.seccomp config.seccompAllowlist) ∈ childProgram config := by
      rw [hprogram]
      exact List.mem_append_left _ hpassed
    have hlist : config.seccompAllowlist ≠ [] := (seccomp_of_mem hmem).2
    rcases filter_ahead_or_passed hlist hprogram with ⟨_, _, hahead⟩ | ⟨hsuffix, _⟩
    · exact absurd hpassed hahead
    · have hbehind : .checked call ∈ behindFilter config := hsuffix.subset List.mem_cons_self
      exact (not_refuses_iff (h hlist).short).mpr ((h hlist).allows call nr hbehind hnumber)

theorem launch_viable {host : Host} {ids : Ids} {pipe fork : Bool}
    (h : launch host config ids pipe fork = some w) : w.Viable := by
  obtain ⟨_, rfl⟩ := launch_eq h
  refine ⟨childProgram config, .start, rfl, rfl, ?_⟩
  intro _
  refine Or.inr ⟨parentProgram config ids, ParentOp.setpgid.start, rfl, ?_, rfl⟩
  exact List.mem_append_right _ List.mem_cons_self

/-- Some run on which the kernel keeps to the filter comes to the start of the target exactly
when there is no filter, or the list has room for its program and holds every call that the
child makes behind it. -/
theorem target_behind_filter_iff {host : Host} {ids : Ids} {pipe fork : Bool} (prlimit : Bool)
    (hlaunch : launch host config ids pipe fork = some w) :
    (∃ moves outputs w', Machine.Along setupStep (Obeys prlimit) w moves ∧
      Machine.run setupStep w moves = some (outputs, w') ∧ w'.AtTarget) ↔
      (config.seccompAllowlist ≠ [] → PassesItself prlimit config) := by
  constructor
  · rintro ⟨moves, outputs, w', hobeys, hrun, htarget⟩ hlist
    exact passesItself_of_run hlist hlaunch hobeys hrun htarget
  · intro h
    obtain ⟨w', ⟨moves, outputs, _, hrun⟩, htarget⟩ :=
      target_of_viable (launch_placed hlaunch) (launch_viable hlaunch)
    refine ⟨moves, outputs, w', ?_, hrun, htarget⟩
    have horder : Machine.Along setupStep (fun w _ => InOrder config w) w moves :=
      Machine.along_of_invariant (InOrder config) (fun _ _ => True)
        (fun _ _ _ _ hI _ hstep => setupStep_inOrder hI hstep) (launch_inOrder hlaunch)
        (Machine.along_of_forall_mem fun _ _ _ => trivial)
    exact horder.imp fun _ _ hI => obeys_of_passesItself hI h

/-- The list of the package commands has every call that any configuration makes behind it. -/
theorem passes_default (prlimit : Bool) (h : config.seccompAllowlist = defaultPackageSyscalls) :
    PassesItself prlimit config := by
  have hlimit : Allows defaultPackageSyscalls (if prlimit then 302 else 160) := by
    cases prlimit <;> decide +kernel
  have hgroup : Allows defaultPackageSyscalls 119 := by decide +kernel
  have huser : Allows defaultPackageSyscalls 117 := by decide +kernel
  refine ⟨by rw [h]; decide +kernel, ?_⟩
  rw [h]
  intro call nr hbehind hnumber
  rcases number_behindFilter _ hbehind call rfl nr hnumber with rfl | rfl | rfl
  · exact hlimit
  · exact hgroup
  · exact huser

end Runs

/-- A configuration with a limit, and this list. -/
def limitedConfig (allowlist : List Int) : Config :=
  { maxProcesses := 64, seccompAllowlist := allowlist }

theorem target_behind_filter_iff_limited :
    (∃ w, launch {} (limitedConfig defaultPackageSyscalls) launchIds true true = some w ∧
      ∃ moves outputs w', Machine.Along setupStep (Obeys true) w moves ∧
        Machine.run setupStep w moves = some (outputs, w') ∧ w'.AtTarget) ∧
    ∃ w, launch {} (limitedConfig [59]) launchIds true true = some w ∧
      ¬ ∃ moves outputs w', Machine.Along setupStep (Obeys true) w moves ∧
        Machine.run setupStep w moves = some (outputs, w') ∧ w'.AtTarget := by
  constructor
  · obtain ⟨w, hlaunch⟩ := Option.isSome_iff_exists.mp
      (show (launch {} (limitedConfig defaultPackageSyscalls) launchIds true true).isSome by decide)
    exact ⟨w, hlaunch, (target_behind_filter_iff true hlaunch).mpr fun _ => passes_default true rfl⟩
  · obtain ⟨w, hlaunch⟩ := Option.isSome_iff_exists.mp
      (show (launch {} (limitedConfig [59]) launchIds true true).isSome by decide)
    refine ⟨w, hlaunch, ?_⟩
    rw [target_behind_filter_iff true hlaunch]
    intro h
    have hallows := (h (List.cons_ne_nil _ _)).allows (.setrlimit .processes 64) 302
      List.mem_cons_self rfl
    exact absurd hallows (by decide)

end ExeCell.Sandbox
