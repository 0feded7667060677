import Mathlib.Data.Fintype.EquivFin
import Mathlib.Tactic.TFAE
import ExeCell.Lib.Words
import ExeCell.Policy.Transducer

/-!
# Stricter policies

When one configuration of the engine is at least as strict as another, whatever the target
does. `Config.Subsumes` can be read off the rules; it holds exactly when no event is denied
under the other configuration only, and even then when no stream of events as a whole is
(`subsumes_tfae`). A rule on paths is compared with endpoints too and the other way round,
so only all names together count, and an empty rule reaches events that have no name.
-/

namespace ExeCell.Policy

open Prefixes

namespace Config

/-- The beginnings that are denied, of paths and of endpoints. -/
def names (config : Config) : List Text := config.deniedPaths ++ config.deniedEndpoints

/-- Every event is denied, for the empty path is the start of any resource. -/
def Total (config : Config) : Prop := [] ∈ config.deniedPaths

/-- Every event without a resource and a system call is denied. An empty system call
matches these and all that have a resource. -/
def Mute (config : Config) : Prop := config.Total ∨ [] ∈ config.deniedSyscalls

/-- What the rules of `strict` must have, rule by rule of `lax`. -/
structure Subsumes (strict lax : Config) : Prop where
  total : lax.Total → strict.Total
  mute : lax.Mute → strict.Mute
  names : strict.Mute ∨ ∀ name ∈ lax.names, name ≠ [] → Begun strict.names name
  /-- An empty endpoint denies whatever has a name. -/
  anyName : [] ∈ lax.deniedEndpoints → strict.Mute ∨ ∀ c, Begun strict.names [c]
  syscalls : strict.Total ∨ ∀ name ∈ lax.deniedSyscalls, name ≠ [] → name ∈ strict.deniedSyscalls
  /-- A limit of `2 ^ 64 - 1` is never exceeded. -/
  processes : strict.Mute ∨ lax.maxProcesses = 0 ∨ 2 ^ 64 - 1 ≤ lax.maxProcesses ∨
    strict.maxProcesses ≠ 0 ∧ strict.maxProcesses ≤ lax.maxProcesses

/-! ## One event -/

variable {config strict lax : Config} {payload : Payload} {earlier events : List Event}
  {event : Event}

/-- The event is denied by a rule, or it is a process beyond the limit. -/
theorem denies_iff :
    config.Denies earlier event ↔
      config.Matches event.payload ∨ processSpawn event.payload = true ∧ config.maxProcesses ≠ 0 ∧
        config.maxProcesses < spawned (earlier ++ [event]) % 2 ^ 64 := by
  rw [Denies, Engine.evaluate_deny_iff, Engine.after_config, Engine.OverLimit,
    Engine.count_config, Engine.after_config,
    count_processCount _ earlier event (after_processCount config earlier)]

/-- What has a resource has no system call. -/
theorem syscall_of_resource (h : resource payload ≠ []) : syscall payload = [] := by
  cases payload <;> first | rfl | exact absurd rfl h

theorem syscall_of_spawn (h : processSpawn payload = true) :
    resource payload = [] ∧ syscall payload = [] := by
  cases payload <;> first | exact ⟨rfl, rfl⟩ | cases h

theorem matches_named_iff (h : resource payload ≠ []) :
    config.Matches payload ↔ config.Mute ∨ Begun config.names (resource payload) := by
  rw [Matches, syscall_of_resource h, Mute, names, begun_append_iff, and_iff_right h]
  constructor
  · intro hmatches
    rcases hmatches with hpath | hendpoint | hsyscall
    · exact Or.inr (Or.inl hpath)
    · exact Or.inr (Or.inr hendpoint)
    · exact Or.inl (Or.inr hsyscall)
  · intro hdenied
    rcases hdenied with (htotal | hsyscall) | hpath | hendpoint
    · exact Or.inl (begun_of_nil_mem htotal)
    · exact Or.inr (Or.inr hsyscall)
    · exact Or.inl hpath
    · exact Or.inr (Or.inl hendpoint)

theorem matches_nameless_iff (h : resource payload = []) :
    config.Matches payload ↔ config.Total ∨ syscall payload ∈ config.deniedSyscalls := by
  have hpaths : (∃ denied ∈ config.deniedPaths, denied <+: []) ↔ config.Total := begun_nil_iff
  rw [Matches, h, hpaths]
  simp

theorem matches_of_total (h : config.Total) : config.Matches payload :=
  Or.inl (begun_of_nil_mem h)

theorem Subsumes.matches (hsub : strict.Subsumes lax) (h : lax.Matches payload) :
    strict.Matches payload := by
  by_cases hname : resource payload = []
  · rw [matches_nameless_iff hname] at h ⊢
    rcases h with htotal | hmem
    · exact Or.inl (hsub.total htotal)
    by_cases hempty : syscall payload = []
    · rw [hempty] at hmem ⊢
      exact hsub.mute (Or.inr hmem)
    · exact hsub.syscalls.imp_right fun hall => hall _ hmem hempty
  · rw [matches_named_iff hname] at h ⊢
    rcases h with hmute | hbegun
    · exact Or.inl (hsub.mute hmute)
    by_cases hmute : strict.Mute
    · exact Or.inl hmute
    refine Or.inr (forall_begun_iff.mpr ⟨hsub.names.resolve_left hmute, ?_⟩ _ hname hbegun)
    intro hnil
    rcases List.mem_append.mp hnil with hpath | hendpoint
    · exact absurd (hsub.mute (Or.inl hpath)) hmute
    · exact (hsub.anyName hendpoint).resolve_left hmute

theorem Subsumes.denies (hsub : strict.Subsumes lax) (h : lax.Denies earlier event) :
    strict.Denies earlier event := by
  rw [denies_iff] at h ⊢
  rcases h with hmatches | ⟨hspawn, hlimited, hover⟩
  · exact Or.inl (hsub.matches hmatches)
  · rcases hsub.processes with hmute | hunlimited | hhuge | ⟨hstrict, hle⟩
    · obtain ⟨hname, hempty⟩ := syscall_of_spawn hspawn
      rw [matches_nameless_iff hname, hempty]
      exact Or.inl hmute
    · exact absurd hunlimited hlimited
    · have hmod := Nat.mod_lt (spawned (earlier ++ [event])) (Nat.two_pow_pos 64)
      omega
    · exact Or.inr ⟨hspawn, hstrict, lt_of_le_of_lt hle hover⟩

/-! ## A stream of events -/

/-- The violations that the engine has kept after the events. -/
def violations (config : Config) (events : List Event) : List Violation :=
  (Engine.after { config := config } events).violations

theorem violations_append (config : Config) (events : List Event) (event : Event) :
    (¬ config.Denies events event ∧
        config.violations (events ++ [event]) = config.violations events) ∨
      ∃ violation : Violation, config.Denies events event ∧ violation.context = event.context ∧
        config.violations (events ++ [event]) = config.violations events ++ [violation] := by
  rw [violations, violations, Engine.after_append, Denies]
  rcases (Engine.after { config := config } events).evaluate_cases event with
    ⟨_, hallow, hsame⟩ | ⟨rule, named, _, hdeny, hlog⟩
  · rw [hallow]
    refine Or.inl ⟨?_, hsame⟩
    exact Decision.noConfusion
  · exact Or.inr ⟨⟨rule, named, event.context⟩, hdeny, rfl, hlog⟩

/-- What is denied more often is denied at least where it was. -/
theorem sublist_of_denies
    (h : ∀ earlier event, lax.Denies earlier event → strict.Denies earlier event)
    (events : List Event) :
    ((lax.violations events).map Violation.context).Sublist
      ((strict.violations events).map Violation.context) := by
  induction events using List.reverseRecOn with
  | nil => exact List.Sublist.refl _
  | append_singleton events event ih =>
    rcases lax.violations_append events event with ⟨_, hlax⟩ | ⟨broken, hdenied, hcontext, hlax⟩
    · rw [hlax]
      rcases strict.violations_append events event with ⟨_, hstrict⟩ | ⟨broken, _, _, hstrict⟩
      · rw [hstrict]
        exact ih
      · rw [hstrict, List.map_append]
        exact List.sublist_append_of_sublist_left ih
    · rcases strict.violations_append events event with
        ⟨hallowed, _⟩ | ⟨broken', _, hcontext', hstrict⟩
      · exact absurd (h events event hdenied) hallowed
      · rw [hlax, hstrict, List.map_append, List.map_append, List.map_singleton,
          List.map_singleton, hcontext, hcontext']
        exact ih.append_right _

/-- The stream is denied at an event. -/
theorem violations_ne_nil_iff :
    config.violations events ≠ [] ↔
      ∃ earlier event, earlier ++ [event] <+: events ∧ config.Denies earlier event := by
  induction events using List.reverseRecOn with
  | nil =>
    refine iff_of_false (fun h => h rfl) ?_
    intro hdenied
    obtain ⟨earlier, event, hbegins, _⟩ := hdenied
    exact List.append_ne_nil_of_right_ne_nil _ (List.cons_ne_nil _ _) (List.prefix_nil.mp hbegins)
  | append_singleton events event ih =>
    constructor
    · intro h
      rcases config.violations_append events event with ⟨_, hsame⟩ | ⟨violation, hdenied, _⟩
      · rw [hsame, ih] at h
        obtain ⟨earlier, event', hbegins, hdenied⟩ := h
        exact ⟨earlier, event', hbegins.trans (List.prefix_append _ _), hdenied⟩
      · exact ⟨events, event, List.prefix_rfl, hdenied⟩
    · intro hsome
      obtain ⟨earlier, event', hbegins, hdenied⟩ := hsome
      rcases config.violations_append events event with ⟨hallowed, hsame⟩ | ⟨violation, _, _, hlog⟩
      · rw [hsame, ih]
        rcases List.prefix_concat_iff.mp hbegins with heq | hbegins
        · obtain ⟨rfl, hlast⟩ := List.append_inj' heq rfl
          rw [List.singleton_inj] at hlast
          exact absurd (hlast ▸ hdenied) hallowed
        · exact ⟨earlier, event', hbegins, hdenied⟩
      · rw [hlog]
        exact List.append_ne_nil_of_right_ne_nil _ (List.cons_ne_nil _ _)

/-- No stream is denied under `lax` only. -/
def DeniesStreams (strict lax : Config) : Prop :=
  ∀ events, lax.violations events ≠ [] → strict.violations events ≠ []

theorem denies_of_sublist
    (h : ∀ events, ((lax.violations events).map Violation.context).Sublist
      ((strict.violations events).map Violation.context)) : strict.DeniesStreams lax := by
  intro events hlax hstrict
  have hsublist := h events
  rw [hstrict, List.map_nil, List.sublist_nil, List.map_eq_nil_iff] at hsublist
  exact hlax hsublist

theorem Subsumes.streams (h : strict.Subsumes lax) : strict.DeniesStreams lax :=
  denies_of_sublist (sublist_of_denies fun _ _ => h.denies)

/-! ## From streams to rules -/

theorem violations_singleton (event : Event) :
    config.violations [event] ≠ [] ↔ config.Denies [] event := by
  rcases config.violations_append [] event with ⟨hallowed, hsame⟩ | ⟨violation, hdenied, _, hlog⟩
  · refine iff_of_false (fun h => h hsame) hallowed
  · refine iff_of_true ?_ hdenied
    rw [List.nil_append] at hlog
    rw [hlog]
    exact List.append_ne_nil_of_right_ne_nil _ (List.cons_ne_nil _ _)

/-- A stream of one event that is no process tells the rules apart. -/
theorem DeniesStreams.matches (h : strict.DeniesStreams lax) (hspawn : processSpawn payload = false)
    (hmatches : lax.Matches payload) : strict.Matches payload := by
  have hstrict := h [⟨payload, {}⟩] ((violations_singleton _).mpr (denies_iff.mpr (Or.inl hmatches)))
  rw [violations_singleton, denies_iff] at hstrict
  rcases hstrict with hmatches | ⟨hprocess, _⟩
  · exact hmatches
  · rw [show processSpawn payload = true from hprocess] at hspawn
    cases hspawn

theorem DeniesStreams.total (h : strict.DeniesStreams lax) (htotal : lax.Total) :
    strict.Total := by
  -- there are more names of system calls than a configuration lists
  obtain ⟨name, hfresh⟩ := Infinite.exists_notMem_finset strict.deniedSyscalls.toFinset
  have hmatches : strict.Matches (.syscallFailed 100 name 2) :=
    h.matches rfl (matches_of_total htotal)
  rw [matches_nameless_iff rfl] at hmatches
  refine hmatches.resolve_right ?_
  intro hmem
  exact hfresh (List.mem_toFinset.mpr hmem)

theorem DeniesStreams.mute (h : strict.DeniesStreams lax) (hmute : lax.Mute) : strict.Mute := by
  have hmatches : strict.Matches (.traceStarted 100) :=
    h.matches rfl ((matches_nameless_iff rfl).mpr hmute)
  exact (matches_nameless_iff rfl).mp hmatches

theorem DeniesStreams.begun (h : strict.DeniesStreams lax) (hmute : ¬ strict.Mute) (name : Text)
    (hname : name ≠ []) (hbegun : Begun lax.names name) : Begun strict.names name := by
  have hresource : resource (.fileDeleted name) ≠ [] := hname
  have hmatches := h.matches rfl ((matches_named_iff hresource).mpr (Or.inr hbegun))
  exact ((matches_named_iff hresource).mp hmatches).resolve_left hmute

theorem DeniesStreams.syscalls (h : strict.DeniesStreams lax) (htotal : ¬ strict.Total)
    {name : Text} (hmem : name ∈ lax.deniedSyscalls) : name ∈ strict.deniedSyscalls := by
  have hmatches : strict.Matches (.syscallFailed 100 name 2) :=
    h.matches rfl ((matches_nameless_iff rfl).mpr (Or.inr hmem))
  exact ((matches_nameless_iff rfl).mp hmatches).resolve_left htotal

/-- Nothing but processes, one more than `lax` allows. -/
theorem DeniesStreams.processes (h : strict.DeniesStreams lax) (hmute : ¬ strict.Mute)
    (hlimited : lax.maxProcesses ≠ 0) (hsmall : lax.maxProcesses < 2 ^ 64 - 1) :
    strict.maxProcesses ≠ 0 ∧ strict.maxProcesses ≤ lax.maxProcesses := by
  have hlast : spawns (lax.maxProcesses + 1) =
      spawns lax.maxProcesses ++ [⟨.processSpawned 101 100, {}⟩] := List.replicate_succ'
  have hlax : lax.violations (spawns (lax.maxProcesses + 1)) ≠ [] := by
    rw [violations_ne_nil_iff]
    refine ⟨spawns lax.maxProcesses, ⟨.processSpawned 101 100, {}⟩, ?_, ?_⟩
    · rw [← hlast]
    · rw [denies_iff, ← hlast, spawned_spawns, Nat.mod_eq_of_lt (by omega)]
      exact Or.inr ⟨rfl, hlimited, Nat.lt_succ_self _⟩
  obtain ⟨earlier, event, hbegins, hdenied⟩ := violations_ne_nil_iff.mp (h _ hlax)
  have hspawn : event = ⟨.processSpawned 101 100, {}⟩ :=
    List.eq_of_mem_replicate (hbegins.subset (List.mem_append_right _ (List.mem_singleton_self _)))
  rw [denies_iff, hspawn, matches_nameless_iff rfl] at hdenied
  obtain ⟨_, hstrict, hover⟩ := hdenied.resolve_left hmute
  have hcount := hbegins.sublist.countP_le (p := fun event => processSpawn event.payload)
  have hall := spawned_spawns (lax.maxProcesses + 1)
  rw [spawned] at hall
  rw [hspawn] at hcount
  have hmod := Nat.mod_le (spawned (earlier ++ [⟨.processSpawned 101 100, {}⟩])) (2 ^ 64)
  rw [spawned] at hover hmod
  refine ⟨hstrict, ?_⟩
  omega

theorem DeniesStreams.subsumes (h : strict.DeniesStreams lax) : strict.Subsumes lax where
  total := h.total
  mute := h.mute
  names := by
    by_cases hmute : strict.Mute
    · exact Or.inl hmute
    · exact Or.inr (forall_begun_iff.mp (h.begun hmute)).1
  anyName := by
    intro hnil
    by_cases hmute : strict.Mute
    · exact Or.inl hmute
    · exact Or.inr ((forall_begun_iff.mp (h.begun hmute)).2 (List.mem_append_right _ hnil))
  syscalls := by
    by_cases htotal : strict.Total
    · exact Or.inl htotal
    · exact Or.inr fun name hmem _ => h.syscalls htotal hmem
  processes := by
    by_cases hmute : strict.Mute
    · exact Or.inl hmute
    by_cases hlimited : lax.maxProcesses = 0
    · exact Or.inr (Or.inl hlimited)
    by_cases hsmall : lax.maxProcesses < 2 ^ 64 - 1
    · exact Or.inr (Or.inr (Or.inr (h.processes hmute hlimited hsmall)))
    · exact Or.inr (Or.inr (Or.inl (Nat.le_of_not_lt hsmall)))

/-- For all configurations: the rules of one subsume those of another exactly when it denies
every event that the other denies at the same place of the same stream, when its violations
stand at all events where the other's do, and when no stream is denied by the other alone. -/
theorem subsumes_tfae (strict lax : Config) :
    List.TFAE [strict.Subsumes lax,
      ∀ earlier event, lax.Denies earlier event → strict.Denies earlier event,
      ∀ events, ((lax.violations events).map Violation.context).Sublist
        ((strict.violations events).map Violation.context),
      strict.DeniesStreams lax] := by
  tfae_have 1 → 2 := fun h _ _ => h.denies
  tfae_have 2 → 3 := sublist_of_denies
  tfae_have 3 → 4 := denies_of_sublist
  tfae_have 4 → 1 := DeniesStreams.subsumes
  tfae_finish

end Config

end ExeCell.Policy
