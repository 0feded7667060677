import ExeCell.Lib.Machine
import ExeCell.Package.RootfsFiles

/-!
# The guardian of a session

`launch_guardian` forks a process that removes the paths of a session when its owner dies.
It asks for `SIGTERM` at the death of its parent, leaves when it finds that it has been
adopted by process 1, installs the handler that becomes `rm -rf`, and waits. The owner ends
it itself with `SIGTERM` when it releases the session, and waits for it.

The owner can die between any two of these calls, and the guardian too. A guardian that
gets its signal before the handler is there dies of it and removes nothing.
-/

namespace ExeCell.Package.Rootfs

/-! ## The two processes -/

/-- How far the guardian is. -/
inductive Stage where
  | forked
  /-- Behind its `prctl`. -/
  | asked
  /-- Behind its `getppid`. -/
  | looked
  /-- In `pause`; `handler` says whether `guardian_cleanup` is installed. -/
  | waiting (handler : Bool)
  /-- In `guardian_cleanup`, where `SIGTERM` is blocked. -/
  | removing
  | gone
  deriving DecidableEq, Repr

/-- A call of `Session::release`. -/
inductive ReleaseCall where
  | remove (path : Text)
  | terminate
  | await
  deriving DecidableEq, Repr

inductive Owner where
  | holding
  | releasing (calls : List ReleaseCall)
  | dead
  deriving DecidableEq, Repr

/-- The process ids that `getppid` of the guardian returns: that of the owner, and after its
death that of the process which adopts orphans. -/
structure Parents where
  owner : Nat
  adopter : Nat

structure Guarded where
  files : Files
  owner : Owner := .holding
  guardian : Stage := .forked
  /-- The parent death signal of the guardian is `SIGTERM`. -/
  armed : Bool := false

/-- `Session::release`, call by call. -/
def Held.releaseCalls (held : Held) : List ReleaseCall :=
  [.remove held.source, .remove held.writable, .remove held.base] ++
    (if held.guardian.isSome then [.terminate, .await] else []) ++ [.remove held.workspace]

/-- What `SIGTERM` does to a guardian. -/
def Stage.terminated : Stage → Stage
  | .forked => .gone
  | .asked => .gone
  | .looked => .gone
  | .waiting handler => if handler then .removing else .gone
  | .removing => .removing
  | .gone => .gone

/-- One call of one of the two processes, or something that befalls them. -/
inductive GuardMove where
  | prctl (ok : Bool)
  | getppid
  | sigaction (ok : Bool)
  /-- The `execv` of `guardian_cleanup`, and the `rm` it becomes. -/
  | rm (ok : Bool)
  | release
  /-- The next call of the release; a `waitpid` that is `interrupted` is not repeated. -/
  | owner (interrupted : Bool)
  | ownerDies
  /-- Someone else kills the guardian. -/
  | guardianKilled
  /-- Someone else sends `SIGTERM` to the guardian. -/
  | guardianTerminated
  deriving DecidableEq, Repr

def Guarded.getppid (parents : Parents) (g : Guarded) : Nat :=
  if g.owner = .dead then parents.adopter else parents.owner

def releaseStep (system : System) (g : Guarded) (interrupted : Bool) : Option Guarded :=
  match g.owner with
  | .releasing (.remove path :: calls) =>
    some { g with owner := .releasing calls, files := system.removePath g.files path }
  | .releasing (.terminate :: calls) =>
    some { g with owner := .releasing calls, guardian := g.guardian.terminated }
  | .releasing (.await :: calls) =>
    if g.guardian = .gone ∨ interrupted then some { g with owner := .releasing calls } else none
  | _ => none

def guardStep (system : System) (held : Held) (parents : Parents) (g : Guarded)
    (move : GuardMove) : Option (Unit × Guarded) :=
  match move, g.guardian with
  | .prctl ok, .forked => some ((), { g with guardian := .asked, armed := ok })
  | .getppid, .asked =>
    some ((), { g with guardian := if g.getppid parents = 1 then .gone else .looked })
  | .sigaction ok, .looked => some ((), { g with guardian := .waiting ok })
  | .rm ok, .removing =>
    some ((), { g with
      guardian := .gone
      files := if ok then (held.guardian.getD []).foldl system.removePath g.files else g.files })
  | .release, _ =>
    if g.owner = .holding then some ((), { g with owner := .releasing held.releaseCalls })
    else none
  | .owner interrupted, _ => (releaseStep system g interrupted).map fun g => ((), g)
  | .ownerDies, _ =>
    if g.owner = .dead then none
    else some ((), { g with
      owner := .dead, guardian := if g.armed then g.guardian.terminated else g.guardian })
  | .guardianKilled, _ => some ((), { g with guardian := .gone })
  | .guardianTerminated, _ => some ((), { g with guardian := g.guardian.terminated })
  | _, _ => none

/-- A session that has just been created, and its guardian, if it has one. -/
def Held.guarded (held : Held) (files : Files) : Guarded :=
  { files := files, guardian := if held.guardian.isSome then .forked else .gone }

/-! ## Removing -/

section Remove

variable {system : System} {files : Files} {path other : Text} {paths : List Text}

/-- A path at which nothing is left, and an empty one, which `remove_path` leaves out. -/
def System.Clean (system : System) (files : Files) (path : Text) : Prop :=
  path ≠ [] → files.entries (system.place path) = none

theorem clean_removePath_self (hleft : system.left path = [])
    (hplace : path ≠ [] → system.place path ≠ []) :
    system.Clean (system.removePath files path) path := by
  intro hpath
  rw [System.removePath, if_neg hpath, hleft, FileTree.Tree.removeAll]
  simp [hplace hpath]

theorem clean_removePath (h : system.Clean files path) (other : Text) :
    system.Clean (system.removePath files other) path := by
  intro hpath
  have hnone := h hpath
  rw [System.removePath]
  split
  · exact hnone
  · rw [FileTree.Tree.removeAll]
    dsimp only
    split
    · rfl
    · exact hnone

theorem clean_foldl (h : system.Clean files path) (paths : List Text) :
    system.Clean (paths.foldl system.removePath files) path := by
  induction paths generalizing files with
  | nil => exact h
  | cons other paths ih => exact ih (clean_removePath h other)

theorem clean_foldl_of_mem (hleft : ∀ path ∈ paths, system.left path = [])
    (hplace : ∀ path ∈ paths, path ≠ [] → system.place path ≠ []) (hmem : path ∈ paths) :
    system.Clean (paths.foldl system.removePath files) path := by
  induction paths generalizing files with
  | nil => cases hmem
  | cons first paths ih =>
    rw [List.forall_mem_cons] at hleft hplace
    rcases List.mem_cons.mp hmem with rfl | hmem
    · exact clean_foldl (clean_removePath_self hleft.1 hplace.1) paths
    · exact ih hleft.2 hplace.2 hmem

end Remove

/-- The paths of a session, in the order in which its guardian removes them. -/
def Held.paths (held : Held) : List Text :=
  [held.source, held.writable, held.base, held.workspace]

/-- Every path of the session can be removed as a whole. -/
def System.Removable (system : System) (held : Held) : Prop :=
  ∀ path ∈ held.paths, system.left path = [] ∧ (path ≠ [] → system.place path ≠ [])

/-! ## What a step can do -/

/-- The moves, each with the state it is made in and the one it leads to. -/
inductive Leads (system : System) (held : Held) (parents : Parents) (g : Guarded) :
    GuardMove → Guarded → Prop where
  | prctl (ok : Bool) (hstage : g.guardian = .forked) :
    Leads system held parents g (.prctl ok) { g with guardian := .asked, armed := ok }
  | adopted (hstage : g.guardian = .asked) (hone : g.getppid parents = 1) :
    Leads system held parents g .getppid { g with guardian := .gone }
  | looked (hstage : g.guardian = .asked) (hone : g.getppid parents ≠ 1) :
    Leads system held parents g .getppid { g with guardian := .looked }
  | sigaction (ok : Bool) (hstage : g.guardian = .looked) :
    Leads system held parents g (.sigaction ok) { g with guardian := .waiting ok }
  | rm (ok : Bool) (hstage : g.guardian = .removing) :
    Leads system held parents g (.rm ok)
      { g with
        guardian := .gone
        files := if ok then (held.guardian.getD []).foldl system.removePath g.files else g.files }
  | release (howner : g.owner = .holding) :
    Leads system held parents g .release { g with owner := .releasing held.releaseCalls }
  | remove (interrupted : Bool) (path : Text) (calls : List ReleaseCall)
      (howner : g.owner = .releasing (.remove path :: calls)) :
    Leads system held parents g (.owner interrupted)
      { g with owner := .releasing calls, files := system.removePath g.files path }
  | terminate (interrupted : Bool) (calls : List ReleaseCall)
      (howner : g.owner = .releasing (.terminate :: calls)) :
    Leads system held parents g (.owner interrupted)
      { g with owner := .releasing calls, guardian := g.guardian.terminated }
  | await (interrupted : Bool) (calls : List ReleaseCall)
      (howner : g.owner = .releasing (.await :: calls))
      (hgone : g.guardian = .gone ∨ interrupted = true) :
    Leads system held parents g (.owner interrupted) { g with owner := .releasing calls }
  | ownerDies (howner : g.owner ≠ .dead) :
    Leads system held parents g .ownerDies
      { g with
        owner := .dead, guardian := if g.armed then g.guardian.terminated else g.guardian }
  | guardianKilled : Leads system held parents g .guardianKilled { g with guardian := .gone }
  | guardianTerminated :
    Leads system held parents g .guardianTerminated { g with guardian := g.guardian.terminated }

section Steps

variable {system : System} {held : Held} {parents : Parents} {g g' : Guarded} {u : Unit}
  {files : Files} {move : GuardMove}

theorem leads_of_releaseStep {interrupted : Bool} (h : releaseStep system g interrupted = some g') :
    Leads system held parents g (.owner interrupted) g' := by
  rw [releaseStep.eq_def] at h
  split at h
  · rename_i path calls howner
    cases h
    exact .remove interrupted path calls howner
  · rename_i calls howner
    cases h
    exact .terminate interrupted calls howner
  · rename_i calls howner
    split at h
    · rename_i hgone
      cases h
      exact .await interrupted calls howner hgone
    · cases h
  · cases h

theorem leads_of_guardStep (h : guardStep system held parents g move = some (u, g')) :
    Leads system held parents g move g' := by
  rw [guardStep.eq_def] at h
  split at h
  · rename_i ok hstage
    cases h
    exact .prctl ok hstage
  · rename_i hstage
    cases h
    split
    · rename_i hone
      exact .adopted hstage hone
    · rename_i hone
      exact .looked hstage hone
  · rename_i ok hstage
    cases h
    exact .sigaction ok hstage
  · rename_i ok hstage
    cases h
    exact .rm ok hstage
  · split at h
    · rename_i howner
      cases h
      exact .release howner
    · cases h
  · rename_i interrupted _
    obtain ⟨v, hv, heq⟩ := Option.map_eq_some_iff.mp h
    cases heq
    exact leads_of_releaseStep hv
  · split at h
    · cases h
    · rename_i howner
      cases h
      exact .ownerDies howner
  · cases h
    exact .guardianKilled
  · cases h
    exact .guardianTerminated
  · cases h

theorem terminated_cases (stage : Stage) :
    stage.terminated = .gone ∨ stage.terminated = .removing := by
  cases stage with
  | waiting handler =>
    cases handler with
    | true => exact Or.inr rfl
    | false => exact Or.inl rfl
  | removing => exact Or.inr rfl
  | _ => exact Or.inl rfl

/-! ## A session that is held -/

/-- Nothing has been removed, and nothing is being removed, while the session is held. -/
def HoldingInv (files : Files) (g : Guarded) : Prop :=
  g.owner = .holding → g.files = files ∧ g.guardian ≠ .removing

theorem holding_step (hI : HoldingInv files g) (hmove : move ≠ .guardianTerminated)
    (h : guardStep system held parents g move = some (u, g')) : HoldingInv files g' := by
  intro howner
  cases leads_of_guardStep h with
  | prctl ok hstage => exact ⟨(hI howner).1, by simp⟩
  | adopted hstage hone => exact ⟨(hI howner).1, by simp⟩
  | looked hstage hone => exact ⟨(hI howner).1, by simp⟩
  | sigaction ok hstage => exact ⟨(hI howner).1, by simp⟩
  | rm ok hstage => exact absurd hstage (hI howner).2
  | release hholding => cases howner
  | remove interrupted path calls hreleasing => cases howner
  | terminate interrupted calls hreleasing => cases howner
  | await interrupted calls hreleasing hgone => cases howner
  | ownerDies halive => cases howner
  | guardianKilled => exact ⟨(hI howner).1, by simp⟩
  | guardianTerminated => exact absurd rfl hmove

/-! ## A session that is released -/

/-- What the owner has done of its release: the paths it has removed are gone, and behind its
`kill` the guardian is gone or about to be. -/
def ReleaseInv (system : System) (held : Held) (g : Guarded) : Prop :=
  ∀ calls, g.owner = .releasing calls → ∃ passed, held.releaseCalls = passed ++ calls ∧
    (.terminate ∈ passed → g.guardian = .gone ∨ g.guardian = .removing) ∧
    ∀ path, .remove path ∈ passed → system.left path = [] →
      (path ≠ [] → system.place path ≠ []) → system.Clean g.files path

/-- A guardian that is gone or removing is so after every step, and what is removed stays so. -/
theorem leads_keeps (h : Leads system held parents g move g') :
    (g.guardian = .gone ∨ g.guardian = .removing → g'.guardian = .gone ∨ g'.guardian = .removing) ∧
      ∀ path, system.Clean g.files path → system.Clean g'.files path := by
  cases h with
  | prctl ok hstage => exact ⟨by rw [hstage]; simp, fun path hclean => hclean⟩
  | adopted hstage hone => exact ⟨fun _ => Or.inl rfl, fun path hclean => hclean⟩
  | looked hstage hone => exact ⟨by rw [hstage]; simp, fun path hclean => hclean⟩
  | sigaction ok hstage => exact ⟨by rw [hstage]; simp, fun path hclean => hclean⟩
  | rm ok hstage =>
    refine ⟨fun _ => Or.inl rfl, ?_⟩
    intro path hclean
    cases ok with
    | true => exact clean_foldl hclean _
    | false => exact hclean
  | release howner => exact ⟨id, fun path hclean => hclean⟩
  | remove interrupted path calls howner =>
    exact ⟨id, fun other hclean => clean_removePath hclean path⟩
  | terminate interrupted calls howner =>
    exact ⟨fun _ => terminated_cases _, fun path hclean => hclean⟩
  | await interrupted calls howner hgone => exact ⟨id, fun path hclean => hclean⟩
  | ownerDies howner =>
    refine ⟨?_, fun path hclean => hclean⟩
    intro hover
    dsimp only
    split
    · exact terminated_cases _
    · exact hover
  | guardianKilled => exact ⟨fun _ => Or.inl rfl, fun path hclean => hclean⟩
  | guardianTerminated => exact ⟨fun _ => terminated_cases _, fun path hclean => hclean⟩

theorem release_step (hI : ReleaseInv system held g)
    (h : guardStep system held parents g move = some (u, g')) : ReleaseInv system held g' := by
  have hleads : Leads system held parents g move g' := leads_of_guardStep h
  obtain ⟨hover, hclean⟩ := leads_keeps hleads
  -- as long as the owner is at the same call, what it has passed still holds
  have hsame : g'.owner = g.owner → ReleaseInv system held g' := by
    intro howner calls hcalls
    obtain ⟨passed, hprogram, hterminate, hremoved⟩ := hI calls (howner.symm.trans hcalls)
    refine ⟨passed, hprogram, fun hmem => hover (hterminate hmem), ?_⟩
    intro path hmem hleft hplace
    exact hclean path (hremoved path hmem hleft hplace)
  have hnext : ∀ call calls, g.owner = .releasing (call :: calls) → g'.owner = .releasing calls →
      (call = .terminate → g'.guardian = .gone ∨ g'.guardian = .removing) →
      (∀ path, call = .remove path → system.left path = [] →
        (path ≠ [] → system.place path ≠ []) → system.Clean g'.files path) →
      ReleaseInv system held g' := by
    intro call calls howner howner' hcall hpath later hlater
    rw [howner'] at hlater
    cases hlater
    obtain ⟨passed, hprogram, hterminate, hremoved⟩ := hI _ howner
    refine ⟨passed ++ [call], by rw [hprogram, List.append_assoc, List.singleton_append], ?_, ?_⟩
    · intro hmem
      rcases List.mem_append.mp hmem with hmem | hmem
      · exact hover (hterminate hmem)
      · exact hcall (List.mem_singleton.mp hmem).symm
    · intro path hmem hleft hplace
      rcases List.mem_append.mp hmem with hmem | hmem
      · exact hclean path (hremoved path hmem hleft hplace)
      · exact hpath path (List.mem_singleton.mp hmem).symm hleft hplace
  cases hleads with
  | remove interrupted path calls howner =>
    refine hnext _ calls howner rfl nofun ?_
    rintro other heq hleft hplace
    cases heq
    exact clean_removePath_self hleft hplace
  | terminate interrupted calls howner =>
    exact hnext _ calls howner rfl (fun _ => terminated_cases _) nofun
  | await interrupted calls howner hgone => exact hnext _ calls howner rfl nofun nofun
  | release howner =>
    intro calls hcalls
    cases hcalls
    exact ⟨[], rfl, by simp, by simp⟩
  | ownerDies howner => exact nofun
  | prctl ok hstage => exact hsame rfl
  | adopted hstage hone => exact hsame rfl
  | looked hstage hone => exact hsame rfl
  | sigaction ok hstage => exact hsame rfl
  | rm ok hstage => exact hsame rfl
  | guardianKilled => exact hsame rfl
  | guardianTerminated => exact hsame rfl

/-- The owner waits for its guardian only behind its `kill`. -/
theorem terminate_before_await {passed calls : List ReleaseCall}
    (h : held.releaseCalls = passed ++ .await :: calls) : .terminate ∈ passed := by
  rw [Held.releaseCalls] at h
  split at h
  · rcases passed with _ | ⟨a, _ | ⟨b, _ | ⟨c, _ | ⟨d, passed⟩⟩⟩⟩
    · simp at h
    · simp at h
    · simp at h
    · simp at h
    · simp only [List.cons_append, List.nil_append, List.cons.injEq] at h
      rw [← h.2.2.2.1]
      simp
  · rcases passed with _ | ⟨a, _ | ⟨b, _ | ⟨c, _ | ⟨d, passed⟩⟩⟩⟩
    · simp at h
    · simp at h
    · simp at h
    · simp at h
    · simp at h

/-- A call of the owner that nothing interrupts, or the end of the guardian. -/
def Straight (move : GuardMove) : Prop := move = .owner false ∨ move = .rm true

theorem release_reaches {calls : List ReleaseCall} (hI : ReleaseInv system held g)
    (howner : g.owner = .releasing calls) :
    ∃ g', Machine.Reaches (guardStep system held parents) Straight g g' ∧
      g'.owner = .releasing [] := by
  induction calls generalizing g with
  | nil => exact ⟨g, .refl g, howner⟩
  | cons call calls ih =>
    -- the rest of the release, behind a step that has got the owner past this call
    have hrest : ∀ v, ReleaseInv system held v → ∀ w,
        guardStep system held parents v (.owner false) = some ((), w) → w.owner = .releasing calls →
        ∃ g', Machine.Reaches (guardStep system held parents) Straight v g' ∧
          g'.owner = .releasing [] := by
      intro v hv w hw hlater
      obtain ⟨g', hreaches, hend⟩ := ih (release_step hv hw) hlater
      exact ⟨g', .head (i := .owner false) (Or.inl rfl) hw hreaches, hend⟩
    cases call with
    | remove path =>
      refine hrest g hI { g with owner := .releasing calls, files := system.removePath g.files path }
        ?_ rfl
      simp only [guardStep, releaseStep, howner, Option.map_some]
    | terminate =>
      refine hrest g hI { g with owner := .releasing calls, guardian := g.guardian.terminated } ?_ rfl
      simp only [guardStep, releaseStep, howner, Option.map_some]
    | await =>
      obtain ⟨passed, hprogram, hterminate, _⟩ := hI _ howner
      rcases hterminate (terminate_before_await hprogram) with hgone | hremoving
      · refine hrest g hI { g with owner := .releasing calls } ?_ rfl
        simp only [guardStep, releaseStep, howner, hgone, true_or, if_true, Option.map_some]
      · have hrm : guardStep system held parents g (.rm true) =
            some ((), { g with
              guardian := .gone
              files := (held.guardian.getD []).foldl system.removePath g.files }) := by
          simp only [guardStep, hremoving, if_true]
        obtain ⟨g', hreaches, hend⟩ := hrest _ (release_step hI hrm)
          { g with
            owner := .releasing calls, guardian := .gone
            files := (held.guardian.getD []).foldl system.removePath g.files }
          (by simp only [guardStep, releaseStep, howner, true_or, if_true, Option.map_some]) rfl
        exact ⟨g', .head (i := .rm true) (Or.inr rfl) hrm hreaches, hend⟩

theorem mem_releaseCalls {path : Text} (h : path ∈ held.paths) :
    .remove path ∈ held.releaseCalls := by
  simp only [Held.paths, List.mem_cons, List.not_mem_nil, or_false] at h
  rw [Held.releaseCalls]
  rcases h with rfl | rfl | rfl | rfl <;> simp

/-! ## A session whose owner dies -/

/-- A call that succeeds, and nothing that comes from outside. -/
def GuardMove.succeeds : GuardMove → Bool
  | .prctl ok => ok
  | .sigaction ok => ok
  | .rm ok => ok
  | .guardianKilled => false
  | .guardianTerminated => false
  | _ => true

/-- A guardian on its way to its `pause`, under an owner that holds the session. -/
structure Guarding (files : Files) (g : Guarded) : Prop where
  owner : g.owner = .holding
  files : g.files = files
  armed : g.guardian = .forked ∨ g.guardian = .gone ∨ g.armed = true
  not_removing : g.guardian ≠ .removing
  not_deaf : g.guardian ≠ .waiting false

theorem dead_step (hdead : g.owner = .dead) (h : guardStep system held parents g move = some (u, g')) :
    g'.owner = .dead := by
  cases leads_of_guardStep h with
  | release hholding => cases hdead.symm.trans hholding
  | remove interrupted path calls howner => cases hdead.symm.trans howner
  | terminate interrupted calls howner => cases hdead.symm.trans howner
  | await interrupted calls howner hgone => cases hdead.symm.trans howner
  | ownerDies howner => rfl
  | _ => exact hdead

/-- The guardian comes to wait with its handler in the very step that installs it. -/
theorem guarding_step (hG : Guarding files g) (hmove : move.succeeds = true)
    (hrelease : move ≠ .release) (h : guardStep system held parents g move = some (u, g')) :
    g'.owner = .dead ∨ Guarding files g' ∧
      (g'.guardian = .waiting true ↔ g.guardian = .waiting true ∨ move = .sigaction true) := by
  obtain ⟨howner, hfiles, harmed, hremoving, hdeaf⟩ := hG
  cases leads_of_guardStep h with
  | prctl ok hstage =>
    exact Or.inr ⟨⟨howner, hfiles, Or.inr (Or.inr hmove), by simp, by simp⟩, by simp [hstage]⟩
  | adopted hstage hone =>
    exact Or.inr ⟨⟨howner, hfiles, Or.inr (Or.inl rfl), by simp, by simp⟩, by simp [hstage]⟩
  | looked hstage hone =>
    have hkept : g.armed = true := by simpa [hstage] using harmed
    exact Or.inr ⟨⟨howner, hfiles, Or.inr (Or.inr hkept), by simp, by simp⟩, by simp [hstage]⟩
  | sigaction ok hstage =>
    have hkept : g.armed = true := by simpa [hstage] using harmed
    obtain rfl : ok = true := hmove
    exact Or.inr ⟨⟨howner, hfiles, Or.inr (Or.inr hkept), by simp, by simp⟩, by simp⟩
  | rm ok hstage => exact absurd hstage hremoving
  | release hholding => exact absurd rfl hrelease
  | remove interrupted path calls hreleasing => cases howner.symm.trans hreleasing
  | terminate interrupted calls hreleasing => cases howner.symm.trans hreleasing
  | await interrupted calls hreleasing hgone => cases howner.symm.trans hreleasing
  | ownerDies halive => exact Or.inl rfl
  | guardianKilled => cases hmove
  | guardianTerminated => cases hmove

theorem guarding_run {moves : List GuardMove} {outputs : List Unit} (hG : Guarding files g)
    (hmoves : ∀ m ∈ moves, m.succeeds = true ∧ m ≠ .release)
    (hrun : Machine.run (guardStep system held parents) g moves = some (outputs, g'))
    (halive : g'.owner ≠ .dead) :
    Guarding files g' ∧
      (g'.guardian = .waiting true ↔ g.guardian = .waiting true ∨ .sigaction true ∈ moves) := by
  induction moves generalizing g outputs with
  | nil =>
    simp only [Machine.run_nil, Option.some.injEq, Prod.mk.injEq] at hrun
    rw [← hrun.2]
    exact ⟨hG, by simp⟩
  | cons m moves ih =>
    obtain ⟨v, w, os, hw, hrest, rfl⟩ := Machine.run_cons.mp hrun
    rw [List.forall_mem_cons] at hmoves
    rcases guarding_step hG hmoves.1.1 hmoves.1.2 hw with hdead | ⟨hG', hhandler⟩
    · exact absurd (Machine.run_invariant (fun v => v.owner = .dead)
        (fun _ _ _ _ h hs => dead_step h hs) hdead hrest) halive
    · obtain ⟨hlast, hlater⟩ := ih hG' hmoves.2 hrest
      refine ⟨hlast, ?_⟩
      rw [hlater, hhandler, List.mem_cons, or_assoc, eq_comm (a := m)]

/-- The guardian removes, or has removed, everything. -/
def Cleaning (system : System) (held : Held) (g : Guarded) : Prop :=
  g.owner = .dead ∧ (g.guardian = .removing ∨
    g.guardian = .gone ∧ ∀ path ∈ held.paths, system.Clean g.files path)

/-- The guardian will never remove anything. -/
def Missed (files : Files) (g : Guarded) : Prop :=
  g.owner = .dead ∧ g.files = files ∧ g.guardian ≠ .removing

/-- Behind the death of the owner only the guardian moves: it removes what it is to remove, or
it makes one of its calls on the way to its `pause`. -/
theorem dead_cases (hdead : g.owner = .dead) (hmove : move.succeeds = true)
    (h : guardStep system held parents g move = some (u, g')) :
    (g.guardian = .removing ∧ g'.guardian = .gone ∧
        g'.files = (held.guardian.getD []).foldl system.removePath g.files) ∨
      (g.guardian ≠ .removing ∧ g.guardian ≠ .gone ∧ g'.guardian ≠ .removing ∧
        g'.files = g.files) := by
  cases leads_of_guardStep h with
  | prctl ok hstage => exact Or.inr ⟨by simp [hstage], by simp [hstage], by simp, rfl⟩
  | adopted hstage hone => exact Or.inr ⟨by simp [hstage], by simp [hstage], by simp, rfl⟩
  | looked hstage hone => exact Or.inr ⟨by simp [hstage], by simp [hstage], by simp, rfl⟩
  | sigaction ok hstage => exact Or.inr ⟨by simp [hstage], by simp [hstage], by simp, rfl⟩
  | rm ok hstage =>
    obtain rfl : ok = true := hmove
    exact Or.inl ⟨hstage, rfl, rfl⟩
  | release hholding => cases hdead.symm.trans hholding
  | remove interrupted path calls howner => cases hdead.symm.trans howner
  | terminate interrupted calls howner => cases hdead.symm.trans howner
  | await interrupted calls howner hgone => cases hdead.symm.trans howner
  | ownerDies howner => exact absurd hdead howner
  | guardianKilled => cases hmove
  | guardianTerminated => cases hmove

theorem cleaning_step (hguardian : held.guardian = some held.paths)
    (hremovable : system.Removable held) (hC : Cleaning system held g)
    (hmove : move.succeeds = true) (h : guardStep system held parents g move = some (u, g')) :
    Cleaning system held g' := by
  obtain ⟨hdead, hstage⟩ := hC
  refine ⟨dead_step hdead h, ?_⟩
  rcases dead_cases hdead hmove h with ⟨_, hgone, hfiles⟩ | ⟨hnot, hthere, _, _⟩
  · refine Or.inr ⟨hgone, ?_⟩
    intro path hpath
    rw [hfiles, hguardian]
    exact clean_foldl_of_mem (fun other hother => (hremovable other hother).1)
      (fun other hother => (hremovable other hother).2) hpath
  · rcases hstage with hremoving | ⟨hgone, _⟩
    · exact absurd hremoving hnot
    · exact absurd hgone hthere

theorem missed_step (hM : Missed files g) (hmove : move.succeeds = true)
    (h : guardStep system held parents g move = some (u, g')) : Missed files g' := by
  obtain ⟨hdead, hfiles, hstage⟩ := hM
  refine ⟨dead_step hdead h, ?_⟩
  rcases dead_cases hdead hmove h with ⟨hremoving, _, _⟩ | ⟨_, _, hlater, hsame⟩
  · exact absurd hremoving hstage
  · exact ⟨hsame.trans hfiles, hlater⟩

/-- The guardian that is behind its `prctl` under a living owner is armed, and one that is
behind its `getppid` under a dead one has not been adopted by process 1. -/
def AdoptedInv (parents : Parents) (g : Guarded) : Prop :=
  (g.owner ≠ .dead →
    g.guardian = .forked ∨ g.guardian = .gone ∨ g.guardian = .removing ∨ g.armed = true) ∧
  (g.owner = .dead → g.guardian = .looked ∨ g.guardian = .waiting true → parents.adopter ≠ 1)

theorem adopted_step (hA : AdoptedInv parents g) (hmove : move.succeeds = true)
    (h : guardStep system held parents g move = some (u, g')) : AdoptedInv parents g' := by
  obtain ⟨hlives, hdead⟩ := hA
  cases leads_of_guardStep h with
  | prctl ok hstage => exact ⟨fun _ => Or.inr (Or.inr (Or.inr hmove)), fun _ => by simp⟩
  | adopted hstage hone => exact ⟨fun _ => Or.inr (Or.inl rfl), fun _ => by simp⟩
  | looked hstage hone =>
    refine ⟨?_, ?_⟩
    · intro halive
      have harmed : g.armed = true := by simpa [hstage] using hlives halive
      exact Or.inr (Or.inr (Or.inr harmed))
    · intro hdies _
      rwa [Guarded.getppid, if_pos hdies] at hone
  | sigaction ok hstage =>
    refine ⟨?_, fun hdies _ => hdead hdies (Or.inl hstage)⟩
    intro halive
    have harmed : g.armed = true := by simpa [hstage] using hlives halive
    exact Or.inr (Or.inr (Or.inr harmed))
  | rm ok hstage => exact ⟨fun _ => Or.inr (Or.inl rfl), fun _ => by simp⟩
  | release howner => exact ⟨fun _ => hlives (by simp [howner]), nofun⟩
  | remove interrupted path calls howner => exact ⟨fun _ => hlives (by simp [howner]), nofun⟩
  | terminate interrupted calls howner =>
    refine ⟨?_, nofun⟩
    intro _
    rcases terminated_cases g.guardian with hgone | hremoving
    · exact Or.inr (Or.inl hgone)
    · exact Or.inr (Or.inr (Or.inl hremoving))
  | await interrupted calls howner hgone => exact ⟨fun _ => hlives (by simp [howner]), nofun⟩
  | ownerDies halive =>
    refine ⟨fun h => absurd rfl h, ?_⟩
    intro _ hstage
    dsimp only at hstage
    split at hstage
    · rcases terminated_cases g.guardian with hgone | hremoving
      · simp [hgone] at hstage
      · simp [hremoving] at hstage
    · -- a guardian without its signal is still before its `prctl`, or has come to its end
      rename_i harmed
      rcases hlives halive with hforked | hgone | hremoving | h
      · simp [hforked] at hstage
      · simp [hgone] at hstage
      · simp [hremoving] at hstage
      · exact absurd h harmed
  | guardianKilled => cases hmove
  | guardianTerminated => cases hmove

end Steps

/-! ## Whole runs -/

section Runs

variable {system : System} {held : Held} {parents : Parents} {files : Files} {g : Guarded}
  {moves front back : List GuardMove} {outputs : List Unit}

theorem guarded_guarding (held : Held) (files : Files) :
    Guarding files (held.guarded files) := by
  refine ⟨rfl, rfl, ?_, ?_, ?_⟩
  · rw [Held.guarded]
    dsimp only
    split
    · exact Or.inl rfl
    · exact Or.inr (Or.inl rfl)
  · rw [Held.guarded]
    dsimp only
    split <;> simp
  · rw [Held.guarded]
    dsimp only
    split <;> simp

/-- A session in a plain directory, with its guardian. -/
def plainHeld : Held :=
  { writable := "/session/rootfs-1".toList, workspace := "/session".toList
    guardian := some [[], "/session/rootfs-1".toList, [], "/session".toList] }

def sessionFiles : Files := FileTree.Tree.makeDirectories ∅ ["session".toList, "rootfs-1".toList]

def plainParents : Parents := { owner := 10, adopter := 1 }

/-- The guardian gets to its `pause`. -/
def installMoves : List GuardMove := [.prctl true, .getppid, .sigaction true]

/-- While the owner holds its session nothing is removed, whatever the guardian does and
whenever it is killed, unless someone else sends it `SIGTERM`. -/
theorem held_untouched
    (hrun : Machine.run (guardStep system held parents) (held.guarded files) moves =
      some (outputs, g))
    (houtside : .guardianTerminated ∉ moves) (howner : g.owner = .holding) : g.files = files := by
  have hstart : HoldingInv files (held.guarded files) := fun _ =>
    ⟨rfl, (guarded_guarding held files).not_removing⟩
  have hI : HoldingInv files g :=
    Machine.run_invariant_along (HoldingInv files) (fun _ m => m ≠ .guardianTerminated)
      (fun _ _ _ _ h hm hs => holding_step h hm hs) hstart
      (Machine.along_of_forall_mem fun m hm _ heq => houtside (by rwa [← heq])) hrun
  exact (hI howner).1

theorem held_untouched_installed :
    ∃ g outputs, Machine.run (guardStep plainSystem plainHeld plainParents)
      (plainHeld.guarded sessionFiles) installMoves = some (outputs, g) ∧ g.files = sessionFiles := by
  have hrun : Machine.run (guardStep plainSystem plainHeld plainParents)
      (plainHeld.guarded sessionFiles) installMoves = some (_, _) := rfl
  exact ⟨_, _, hrun, held_untouched hrun (by decide) rfl⟩

/-- A release that has begun comes to its end from wherever the two processes stand: the
owner never waits for a guardian that goes on waiting. And at its end every path of the
session is gone. -/
theorem release_ends {calls : List ReleaseCall}
    (hrun : Machine.run (guardStep system held parents) (held.guarded files) moves =
      some (outputs, g))
    (howner : g.owner = .releasing calls) :
    (∃ g', Machine.Reaches (guardStep system held parents) Straight g g' ∧
      g'.owner = .releasing []) ∧
    (calls = [] → system.Removable held → ∀ path ∈ held.paths, system.Clean g.files path) := by
  have hstart : ReleaseInv system held (held.guarded files) := by
    intro later hlater
    cases hlater
  have hI : ReleaseInv system held g :=
    Machine.run_invariant (ReleaseInv system held) (fun _ _ _ _ h hs => release_step h hs)
      hstart hrun
  refine ⟨release_reaches hI howner, ?_⟩
  rintro rfl hremovable path hpath
  obtain ⟨passed, hprogram, _, hremoved⟩ := hI _ howner
  rw [List.append_nil] at hprogram
  have hmem : .remove path ∈ passed := hprogram ▸ mem_releaseCalls hpath
  exact hremoved path hmem (hremovable path hpath).1 (hremovable path hpath).2

/-- The owner has killed a guardian that had just been forked. -/
theorem release_ends_forked :
    ∃ g outputs, Machine.run (guardStep plainSystem plainHeld plainParents)
        (plainHeld.guarded sessionFiles)
        [.release, .owner false, .owner false, .owner false, .owner false] = some (outputs, g) ∧
      ∃ g', Machine.Reaches (guardStep plainSystem plainHeld plainParents) Straight g g' ∧
        g'.owner = .releasing [] := by
  have hrun : Machine.run (guardStep plainSystem plainHeld plainParents)
      (plainHeld.guarded sessionFiles)
      [.release, .owner false, .owner false, .owner false, .owner false] = some (_, _) := rfl
  exact ⟨_, _, hrun, (release_ends hrun rfl).1⟩

/-- The owner dies while it holds its session, all calls succeed and nothing comes from
outside. Then, wherever the guardian comes to rest, the paths of the session are gone exactly
when the guardian had installed its handler before. -/
theorem cleaned_iff_handler (hguardian : held.guardian = some held.paths)
    (hremovable : system.Removable held) (hthere : ∃ path ∈ held.paths, ¬ system.Clean files path)
    (hfront : ∀ m ∈ front, m.succeeds = true ∧ m ≠ .release)
    (hback : ∀ m ∈ back, m.succeeds = true)
    (hrun : Machine.run (guardStep system held parents) (held.guarded files)
      (front ++ .ownerDies :: back) = some (outputs, g))
    (hrest : g.guardian ≠ .removing) :
    (∀ path ∈ held.paths, system.Clean g.files path) ↔ .sigaction true ∈ front := by
  obtain ⟨os, s, hfirst, os', hsecond, _⟩ := Machine.run_append.mp hrun
  obtain ⟨o, t, os'', hdies, hlater, _⟩ := Machine.run_cons.mp hsecond
  have halive : s.owner ≠ .dead := by
    cases leads_of_guardStep hdies with
    | ownerDies howner => exact howner
  obtain ⟨hG, hhandler⟩ := guarding_run (guarded_guarding held files) hfront hfirst halive
  have hforked : (held.guarded files).guardian = .forked := by
    rw [Held.guarded, hguardian]
    rfl
  simp only [hforked, reduceCtorEq, false_or] at hhandler
  have halong : ∀ (I : Guarded → Prop),
      (∀ s m o t, I s → m.succeeds = true → guardStep system held parents s m = some (o, t) → I t) →
      I t → I g := by
    intro I hstep h0
    exact Machine.run_invariant_along I (fun _ m => m.succeeds = true) hstep h0
      (Machine.along_of_forall_mem fun m hm _ => hback m hm) hlater
  cases leads_of_guardStep hdies with
  | ownerDies _ =>
    by_cases hinstalled : .sigaction true ∈ front
    · -- the signal finds the handler
      have hwaiting := hhandler.mpr hinstalled
      have harmed : s.armed = true := by simpa [hwaiting] using hG.armed
      have hC := halong (Cleaning system held)
        (fun _ _ _ _ h hm hs => cleaning_step hguardian hremovable h hm hs)
        ⟨rfl, Or.inl (by simp [harmed, hwaiting, Stage.terminated])⟩
      refine iff_of_true ?_ hinstalled
      rcases hC.2 with hremoving | ⟨_, hclean⟩
      · exact absurd hremoving hrest
      · exact hclean
    · have hstage : (if s.armed then s.guardian.terminated else s.guardian) ≠ .removing := by
        split
        · intro hremoving
          cases hs : s.guardian with
          | waiting handler =>
            cases handler with
            | true => exact hinstalled (hhandler.mp hs)
            | false => exact hG.not_deaf hs
          | removing => exact hG.not_removing hs
          | forked => rw [hs] at hremoving; cases hremoving
          | asked => rw [hs] at hremoving; cases hremoving
          | looked => rw [hs] at hremoving; cases hremoving
          | gone => rw [hs] at hremoving; cases hremoving
        · exact hG.not_removing
      have hM := halong (Missed files) (fun _ _ _ _ h hm hs => missed_step h hm hs)
        ⟨rfl, hG.files, hstage⟩
      refine iff_of_false ?_ hinstalled
      rw [hM.2.1]
      intro hclean
      obtain ⟨path, hpath, hdirty⟩ := hthere
      exact hdirty (hclean path hpath)

theorem cleaned_iff_handler_installed :
    ∃ g outputs, Machine.run (guardStep plainSystem plainHeld plainParents)
        (plainHeld.guarded sessionFiles) (installMoves ++ .ownerDies :: [.rm true]) =
          some (outputs, g) ∧
      ∀ path ∈ plainHeld.paths, plainSystem.Clean g.files path := by
  have hrun : Machine.run (guardStep plainSystem plainHeld plainParents)
      (plainHeld.guarded sessionFiles) (installMoves ++ .ownerDies :: [.rm true]) =
        some (_, _) := rfl
  refine ⟨_, _, hrun, (cleaned_iff_handler rfl ?_ ?_ (by decide) (by decide) hrun ?_).mpr
    (by decide)⟩
  · have hplaces : ∀ path ∈ plainHeld.paths, path ≠ [] → LexicalPath.normalNames path ≠ [] := by
      decide
    exact fun path hpath => ⟨rfl, hplaces path hpath⟩
  · refine ⟨"/session".toList, by decide, ?_⟩
    intro hclean
    have hnone := hclean (by decide)
    exact absurd hnone (by decide +kernel)
  · exact nofun

/-- The guardian of a dead owner can go on waiting for ever exactly when the process that
adopts it is not process 1. -/
theorem orphan_waits_iff (system : System) (held : Held) (parents : Parents) (files : Files)
    (hguardian : held.guardian.isSome = true) :
    (∃ g, Machine.Reaches (guardStep system held parents) (fun m => m.succeeds = true)
        (held.guarded files) g ∧ g.owner = .dead ∧ g.guardian = .waiting true) ↔
      parents.adopter ≠ 1 := by
  have hforked : (held.guarded files).guardian = .forked := by
    rw [Held.guarded, hguardian]
    rfl
  constructor
  · rintro ⟨g, hreaches, hdead, hwaiting⟩
    have hA : AdoptedInv parents g := by
      refine hreaches.invariant (AdoptedInv parents)
        (fun _ _ _ _ h hm hs => adopted_step h hm hs) ⟨fun _ => Or.inl hforked, ?_⟩
      intro hnot
      cases hnot
    exact hA.2 hdead (Or.inr hwaiting)
  · intro hadopter
    have hstep : Machine.run (guardStep system held parents) (held.guarded files)
        [.ownerDies, .prctl true, .getppid, .sigaction true] =
        some ([(), (), (), ()], { held.guarded files with
          owner := .dead, guardian := .waiting true, armed := true }) := by
      simp [Machine.run, guardStep, Held.guarded, hguardian, Guarded.getppid, hadopter]
    refine ⟨_, ⟨_, _, ?_, hstep⟩, rfl, rfl⟩
    simp [GuardMove.succeeds]

/-- Under a reaper of its own a session leaves its guardian behind. -/
theorem orphan_waits_iff_subreaper :
    ∃ g, Machine.Reaches (guardStep plainSystem plainHeld { owner := 10, adopter := 7 })
        (fun m => m.succeeds = true) (plainHeld.guarded sessionFiles) g ∧
      g.owner = .dead ∧ g.guardian = .waiting true :=
  (orphan_waits_iff plainSystem plainHeld { owner := 10, adopter := 7 } sessionFiles rfl).mpr
    (by decide)

end Runs

end ExeCell.Package.Rootfs
