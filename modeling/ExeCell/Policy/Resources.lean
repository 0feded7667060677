import ExeCell.Policy.PathRules
import ExeCell.Policy.Transducer
import ExeCell.Trace.Descriptors

/-!
# What the rules see of an event

`Engine::evaluate` compares its rules with one text, the resource: the field `path` of the
event or else its field `endpoint`. What an event carries in other fields no rule sees.

* `FileRenamed` has its paths in `from` and `to` (`evaluate_paths_iff`).
* A connection that a non-blocking socket has begun is decoded as a `SyscallFailed`, which
  has lost the endpoint (`connect_denied_iff`).
-/

namespace ExeCell

/-- The paths that the event carries, in whichever field. -/
def Payload.paths : Payload → List Text
  | .fileRenamed fromPath toPath => [fromPath, toPath]
  | payload => payload.path?.toList

namespace Policy

open Report Trace LexicalPath

/-! ## Paths -/

/-- Some rule meets the text of the field `path`, or a rule is empty and meets every
event. -/
def Config.MeetsPath (config : Config) (payload : Payload) : Prop :=
  (∃ path ∈ payload.path?, path ≠ [] ∧
      ∃ denied ∈ config.deniedPaths ++ config.deniedEndpoints, denied <+: path) ∨
    [] ∈ config.deniedPaths ∨ [] ∈ config.deniedSyscalls

/-- An event with paths has no other resource, names no system call and is no new
process. -/
theorem fields_of_paths {payload : Payload} (h : payload.paths ≠ []) :
    resource payload = payload.path?.getD [] ∧ syscall payload = [] ∧
      processSpawn payload = false := by
  cases payload <;> first | exact ⟨rfl, rfl, rfl⟩ | exact absurd rfl h

theorem matches_iff_meetsPath (config : Config) {payload : Payload} (h : payload.paths ≠ []) :
    config.Matches payload ↔ config.MeetsPath payload := by
  obtain ⟨hresource, hsyscall, _⟩ := fields_of_paths h
  rw [Config.Matches, Config.MeetsPath, hresource, hsyscall]
  cases payload.path? with
  | none => simp
  | some path =>
    by_cases hpath : path = []
    · simp [hpath]
    · simp only [Option.getD_some, Option.mem_def, Option.some.injEq, exists_eq_left',
        List.mem_append, ne_eq, hpath, not_false_eq_true, true_and]
      constructor
      · rintro (⟨denied, hmem, hstart⟩ | ⟨denied, hmem, hstart⟩ | hempty)
        · exact Or.inl ⟨denied, Or.inl hmem, hstart⟩
        · exact Or.inl ⟨denied, Or.inr hmem, hstart⟩
        · exact Or.inr (Or.inr hempty)
      · rintro (⟨denied, hmem | hmem, hstart⟩ | hempty | hempty)
        · exact Or.inl ⟨denied, hmem, hstart⟩
        · exact Or.inr (Or.inl ⟨denied, hmem, hstart⟩)
        · exact Or.inl ⟨[], hempty, List.nil_prefix⟩
        · exact Or.inr (Or.inr hempty)

/-- An event with a path at or beneath a denied one is denied exactly when a rule meets
its field `path`. -/
theorem evaluate_paths_iff (engine : Engine) (event : Event)
    (h : ∃ path ∈ event.payload.paths, engine.config.CoversPath path) :
    (engine.evaluate event).1 = .deny ↔ engine.config.MeetsPath event.payload := by
  obtain ⟨path, hmem, _⟩ := h
  have hpaths : event.payload.paths ≠ [] := List.ne_nil_of_mem hmem
  have hspawn := (fields_of_paths hpaths).2.2
  rw [Engine.evaluate_deny_iff, matches_iff_meetsPath _ hpaths, or_iff_left]
  rintro ⟨hlimit, _⟩
  rw [hspawn] at hlimit
  cases hlimit

/-- On normal spellings a rule that covers the field `path` meets it. -/
theorem meetsPath_of_normal {config : Config} {payload : Payload} {rule path : Path}
    (hpath : payload.path? = some path) (hrule : rule ∈ config.deniedPaths)
    (hnormal : NormalRule rule) (hspelled : lexicallyNormal path = path) (h : Covers rule path) :
    config.MeetsPath payload := by
  have hstart : rule <+: path := hnormal.prefix_of_covers hspelled h
  refine Or.inl ⟨path, hpath, ?_, rule, List.mem_append_left _ hrule, hstart⟩
  rintro rfl
  exact hnormal.nonempty (List.prefix_nil.mp hstart)

theorem evaluate_paths_iff_hostname :
    (Engine.denyEtc.evaluate (Engine.opened "/etc/hostname")).1 = .deny ↔
      Engine.denyEtc.config.MeetsPath (Engine.opened "/etc/hostname").payload := by
  refine evaluate_paths_iff Engine.denyEtc (Engine.opened "/etc/hostname")
    ⟨"/etc/hostname".toList, List.mem_singleton.mpr rfl, ?_⟩
  decide

/-- `/etc/shadow` may be renamed although `/etc` is denied. -/
theorem denyEtc_renames :
    let event : Event := ⟨.fileRenamed "/etc/shadow".toList "/tmp/shadow".toList, {}⟩
    "/etc/shadow".toList ∈ event.payload.paths ∧
      Engine.denyEtc.config.CoversPath "/etc/shadow".toList ∧
      (Engine.denyEtc.evaluate event).1 = .allow := by
  decide

/-! ## Endpoints -/

namespace Engine

theorem broken_deniedEndpoint_iff (engine : Engine) (payload : Payload) :
    (∃ named, engine.broken payload = some ("denied-endpoint".toList, named)) ↔
      (∀ denied ∈ engine.config.deniedPaths, ¬ denied <+: resource payload) ∧
        resource payload ≠ [] ∧
        ∃ denied ∈ engine.config.deniedEndpoints, denied <+: resource payload := by
  rw [broken]
  split
  · rename_i hpath
    have hmatch : ∃ denied ∈ engine.config.deniedPaths, denied <+: resource payload := by
      simpa using hpath
    obtain ⟨denied, hmem, hstart⟩ := hmatch
    exact iff_of_false (by simp) fun h => h.1 denied hmem hstart
  · rename_i hpath
    have hnone : ∀ denied ∈ engine.config.deniedPaths, ¬ denied <+: resource payload := by
      simpa using hpath
    rw [and_iff_right hnone]
    split
    · rename_i hendpoint
      simp only [List.any_eq_true, Bool.and_eq_true, Bool.not_eq_true', List.isEmpty_eq_false_iff,
        List.isPrefixOf_iff_prefix] at hendpoint
      obtain ⟨denied, hmem, hne, hstart⟩ := hendpoint
      exact iff_of_true ⟨_, rfl⟩ ⟨hne, denied, hmem, hstart⟩
    · rename_i hendpoint
      refine iff_of_false ?_ ?_
      · -- the rules that are left have other names
        split_ifs <;> simp
      · rintro ⟨hne, denied, hmem, hstart⟩
        apply hendpoint
        simp only [List.any_eq_true, Bool.and_eq_true, Bool.not_eq_true',
          List.isEmpty_eq_false_iff, List.isPrefixOf_iff_prefix]
        exact ⟨denied, hmem, hne, hstart⟩

end Engine

/-- The reporter records one violation of the rule on endpoints for the event. -/
def ReportsDeniedEndpoint {ρ : Type} (R : Reporter ρ) (s : Front ρ) (event : Event) : Prop :=
  ∃ violation : Violation, violation.rule = "denied-endpoint".toList ∧
    ((reporter R).report s event).engine.violations = s.engine.violations ++ [violation]

theorem reportsDeniedEndpoint_iff {ρ : Type} (R : Reporter ρ) (s : Front ρ) (event : Event) :
    ReportsDeniedEndpoint R s event ↔
      (∀ denied ∈ s.engine.config.deniedPaths, ¬ denied <+: resource event.payload) ∧
        resource event.payload ≠ [] ∧
        ∃ denied ∈ s.engine.config.deniedEndpoints, denied <+: resource event.payload := by
  have hbroken := (s.engine.count event.payload).broken_deniedEndpoint_iff event.payload
  rw [Engine.count_config] at hbroken
  have hengine : ((reporter R).report s event).engine = (s.engine.evaluate event).2 := by
    rcases report_cases R s event with ⟨_, _, heq⟩ | ⟨violation, _, _, _, heq⟩ <;> rw [heq]
  rw [← hbroken, ReportsDeniedEndpoint, hengine]
  rcases s.engine.evaluate_cases event with ⟨hnone, _, hsame⟩ | ⟨rule, named, hsome, _, hlog⟩
  · rw [hnone, hsame]
    simp
  · rw [hsome, hlog]
    simp

/-! ## Connections -/

/-- `EINPROGRESS`. -/
def einprogress : Nat := 115

/-- The family of an address that can be read. -/
def addressFamily (memory : Memory) (address length : Nat) : Option Nat :=
  (copyStorage memory address (min length storageSize) (storageSize / wordSize) []).map
    fun copied =>
      let bytes := copied ++ List.replicate (storageSize - copied.length) '\x00'
      byteAt bytes 0 + byteAt bytes 1 * 256

theorem readEndpoint_ne_nil {memory : Memory} {address length family : Nat}
    (h : addressFamily memory address length = some family)
    (hfamily : family = afInet ∨ family = afInet6) : readEndpoint memory address length ≠ [] := by
  obtain ⟨copied, hcopied, hbytes⟩ := Option.map_eq_some_iff.mp h
  rw [readEndpoint]
  simp only [hcopied]
  rw [hbytes]
  rcases hfamily with rfl | rfl
  · rw [if_pos rfl]
    simp
  · rw [if_neg (by decide), if_pos rfl]
    simp

end Policy

namespace Trace.Call

open SyscallDecoder

variable {call : Call} {pid : Pid} {table : FdTable}

/-- The address of `connect`, as `on_entry` renders it. -/
def endpoint (call : Call) : Text :=
  readEndpoint call.entry.memory call.entry.registers.rsi call.entry.registers.rdx

theorem onEntry_connect (h : call.number = Sys.connect) :
    (onEntry pid call.entry).1.pendingEndpoint = call.endpoint := by
  unfold number at h
  rw [onEntry]
  dsimp only
  rw [h, if_neg (by decide), if_pos (Or.inl rfl), endpoint]

theorem complete_connect (h : call.number = Sys.connect) (hresult : call.result = 0) :
    ∃ fd, (call.complete pid table).2 = some (.networkConnected fd call.endpoint) := by
  have hnumber := (onEntry_currentSyscall pid call.entry).trans h
  unfold result at hresult
  rw [complete, onExit, hnumber, hresult, if_neg fun hc => absurd hc.1 (by decide),
    if_pos ⟨rfl, rfl⟩, onEntry_connect h]
  exact ⟨_, rfl⟩

/-- A `connect` with a negative result is a failure, whatever the error says. -/
theorem complete_connect_failed (h : call.number = Sys.connect) (hresult : call.result < 0) :
    (call.complete pid table).2 =
      some (.syscallFailed pid "connect".toList (toInt32 (-call.result))) := by
  have hnumber := (onEntry_currentSyscall pid call.entry).trans h
  unfold result at hresult
  rw [complete, onExit, hnumber, result]
  generalize (decodeFrame call.exit.registers).result = code at *
  have hzero : code ≠ 0 := by omega
  rw [if_neg fun hc => absurd hc.1 (by decide), if_neg fun hc => hzero hc.2]
  iterate 12 rw [if_neg fun hc => absurd hc.1 (by decide)]
  rw [if_pos ⟨hresult, by decide⟩]
  rfl

end Trace.Call

namespace Policy

open Report Trace

/-- A connection that has begun is denied as a connection exactly when it is complete
and no denied path is the start of its endpoint. -/
theorem connect_denied_iff {ρ : Type} (R : Reporter ρ) (s : Front ρ) (call : Call) (pid : Pid)
    (table : FdTable) (context : EventContext) (hconnect : call.number = Sys.connect)
    (hfamily : ∃ family, (family = afInet ∨ family = afInet6) ∧
      addressFamily call.entry.memory call.entry.registers.rsi call.entry.registers.rdx =
        some family)
    (hdenied : ∃ denied ∈ s.engine.config.deniedEndpoints, denied <+: call.endpoint)
    (hbegun : call.result = 0 ∨ call.result = -einprogress) :
    (∃ payload ∈ (call.complete pid table).2, ReportsDeniedEndpoint R s ⟨payload, context⟩) ↔
      call.result = 0 ∧ ∀ denied ∈ s.engine.config.deniedPaths, ¬ denied <+: call.endpoint := by
  obtain ⟨family, hinet, hread⟩ := hfamily
  have hne : call.endpoint ≠ [] := readEndpoint_ne_nil hread hinet
  rcases hbegun with hzero | hprogress
  · obtain ⟨fd, hevent⟩ := @Call.complete_connect call pid table hconnect hzero
    rw [and_iff_right hzero, hevent]
    constructor
    · rintro ⟨payload, hpayload, hreports⟩
      cases hpayload
      exact ((reportsDeniedEndpoint_iff R s _).mp hreports).1
    · intro hpaths
      exact ⟨_, rfl, (reportsDeniedEndpoint_iff R s _).mpr ⟨hpaths, hne, hdenied⟩⟩
  · have hnegative : call.result < 0 := by
      rw [hprogress]
      decide
    rw [Call.complete_connect_failed hconnect hnegative]
    refine iff_of_false ?_ fun h => absurd h.1 (by omega)
    rintro ⟨payload, hpayload, hreports⟩
    cases hpayload
    exact ((reportsDeniedEndpoint_iff R s _).mp hreports).2.1 rfl

/-- The address 192.0.2.1 with port 9, at 4096. -/
def addressMemory : Memory := fun address =>
  if address < 4096 then none
  else some ((['\x02', '\x00', '\x00', '\x09', '\xc0', '\x00', '\x02', '\x01'][address - 4096]?).getD
    '\x00')

/-- `connect` to that address. -/
def connectCall (result : Nat) : Call where
  entry :=
    { registers := { origRax := 42, rdi := 3, rsi := 4096, rdx := 16 }, memory := addressMemory }
  exit := { registers := { origRax := 42, rax := result }, memory := addressMemory }

/-- A reporter front that denies 192.0.2.1. -/
def denyTestNet : Front (List Event) :=
  { engine := { config := { deniedEndpoints := ["192.0.2.1".toList] } }, downstream := [] }

theorem connect_denied_iff_complete :
    (∃ payload ∈ ((connectCall 0).complete 7 {}).2,
        ReportsDeniedEndpoint recorder denyTestNet ⟨payload, {}⟩) ↔
      (connectCall 0).result = 0 ∧
        ∀ denied ∈ denyTestNet.engine.config.deniedPaths,
          ¬ denied <+: (connectCall 0).endpoint :=
  connect_denied_iff recorder denyTestNet (connectCall 0) 7 {} {} (by decide)
    ⟨afInet, Or.inl rfl, by decide +kernel⟩ (by decide +kernel) (Or.inl (by decide))

/-- With `EINPROGRESS` the connection to 192.0.2.1 has begun and is not denied. -/
theorem denyTestNet_begun :
    let call := connectCall (2 ^ 64 - 115)
    call.number = Sys.connect ∧ call.result = -einprogress ∧
      call.endpoint = "192.0.2.1:9".toList ∧
      ∃ payload, (call.complete 7 {}).2 = some payload ∧
        ((reporter recorder).report denyTestNet ⟨payload, {}⟩).engine.violations = [] := by
  refine ⟨by decide, by decide, by decide +kernel,
    .syscallFailed 7 "connect".toList 115, by decide +kernel, by decide +kernel⟩

end Policy

end ExeCell
