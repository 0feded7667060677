import ExeCell.Cli.PackageOptions
import ExeCell.Sandbox.FailClosed

/-!
# The options of the sandbox command

The loop of `main` over the options of `execell sandbox`. It sets five fields of the
configuration and leaves all others as they are, so that no command line takes a control of
the default configuration away: what is then run is contained by it.
-/

namespace ExeCell.Cli

open CommandLine
open Sandbox (Config Backend)

/-- The options without a value. -/
def sandboxFlag (option : Text) : Option (Config → Except Text Config) :=
  if option = "--network".toList then
    some fun config => .ok { config with networkNamespace := true }
  else if option = "--trace-events".toList then
    some fun config => .ok { config with traceEvents := true }
  else none

/-- The options with a value. A value that is no number is found before an option that does
not exist. -/
def sandboxSet (option value : Text) (config : Config) : Except Text Config :=
  if option = "--backend".toList then
    if value = "namespace".toList then .ok { config with backend := .namespaces }
    else if value = "vm".toList then .ok { config with backend := .vm }
    else .error "execell: invalid sandbox backend\n".toList
  else
    match Analyze.fromChars value with
    | none => .error ("execell: invalid value for ".toList ++ option ++ ['\n'])
    | some number =>
      if option = "--cpu".toList then .ok { config with cpuSeconds := number }
      else if option = "--memory".toList then .ok { config with addressSpaceBytes := number }
      else .error ("execell: unknown sandbox option: ".toList ++ option ++ ['\n'])

def sandboxGrammar : Grammar Text Config Text where
  isOption := isOption
  flag := sandboxFlag
  missing option := "execell: missing value for ".toList ++ option ++ ['\n']
  set := sandboxSet

/-- The configuration that `execell sandbox` runs with, and the target with its arguments. -/
def parseSandbox (args : List Text) : Except Text (Config × List Text) :=
  sandboxGrammar.read {} args

/-! ## What can be asked for -/

/-- The fields that the options set. -/
structure SandboxRequest where
  backend : Backend := .namespaces
  networkNamespace : Bool := false
  traceEvents : Bool := false
  cpuSeconds : Nat := 0
  addressSpaceBytes : Nat := 0
  cpuSeconds_lt : cpuSeconds < 2 ^ 64 := by decide
  addressSpaceBytes_lt : addressSpaceBytes < 2 ^ 64 := by decide

/-- The default configuration with these fields. -/
def SandboxRequest.config (request : SandboxRequest) : Config :=
  { backend := request.backend
    networkNamespace := request.networkNamespace
    traceEvents := request.traceEvents
    cpuSeconds := request.cpuSeconds
    addressSpaceBytes := request.addressSpaceBytes }

/-- A command line for the request. -/
def SandboxRequest.items (request : SandboxRequest) : List (Item Text) :=
  (if request.networkNamespace then [.flag "--network".toList] else []) ++
    (if request.traceEvents then [.flag "--trace-events".toList] else []) ++
    [.pair "--backend".toList
        (if request.backend = .vm then "vm".toList else "namespace".toList),
      .pair "--cpu".toList (Text.ofNat request.cpuSeconds),
      .pair "--memory".toList (Text.ofNat request.addressSpaceBytes)]

section Options

variable {config config' : Config} {rest : List Text}

theorem requested_flag {option : Text} {act : Config → Except Text Config}
    (h0 : ∃ request : SandboxRequest, config = request.config)
    (hflag : sandboxFlag option = some act) (h : act config = .ok config') :
    ∃ request : SandboxRequest, config' = request.config := by
  obtain ⟨request, rfl⟩ := h0
  rw [sandboxFlag] at hflag
  split at hflag
  · cases hflag
    cases h
    exact ⟨{ request with networkNamespace := true }, rfl⟩
  split at hflag
  · cases hflag
    cases h
    exact ⟨{ request with traceEvents := true }, rfl⟩
  · cases hflag

theorem requested_set {option value : Text}
    (h0 : ∃ request : SandboxRequest, config = request.config)
    (h : sandboxSet option value config = .ok config') :
    ∃ request : SandboxRequest, config' = request.config := by
  obtain ⟨request, rfl⟩ := h0
  rw [sandboxSet] at h
  split at h
  · split at h
    · cases h
      exact ⟨{ request with backend := .namespaces }, rfl⟩
    split at h
    · cases h
      exact ⟨{ request with backend := .vm }, rfl⟩
    · cases h
  · split at h
    · cases h
    · rename_i number hnumber
      have hsize : number < 2 ^ 64 := fromChars_lt hnumber
      split at h
      · cases h
        exact ⟨{ request with cpuSeconds := number, cpuSeconds_lt := hsize }, rfl⟩
      split at h
      · cases h
        exact ⟨{ request with addressSpaceBytes := number, addressSpaceBytes_lt := hsize }, rfl⟩
      · cases h

theorem requested_of_parse {args : List Text} (h : parseSandbox args = .ok (config, rest)) :
    ∃ request : SandboxRequest, config = request.config := by
  apply Grammar.read_invariant (g := sandboxGrammar)
    (fun config => ∃ request : SandboxRequest, config = request.config) _ ⟨{}, rfl⟩ h
  intro config item config' hfits h0 hact
  cases item with
  | flag option =>
    obtain ⟨act, hflag⟩ := Option.isSome_iff_exists.mp hfits.2
    have hflag' : sandboxFlag option = some act := hflag
    simp only [Grammar.act, hflag] at hact
    exact requested_flag h0 hflag' hact
  | pair option value => exact requested_set h0 hact

theorem set_sandboxNetwork (asked : Bool) (h : config.networkNamespace = false) :
    sandboxGrammar.acts config (if asked then [.flag "--network".toList] else []) =
      .ok { config with networkNamespace := asked } := by
  cases asked with
  | true => rfl
  | false =>
    cases config
    cases h
    rfl

theorem set_traceEvents (asked : Bool) (h : config.traceEvents = false) :
    sandboxGrammar.acts config (if asked then [.flag "--trace-events".toList] else []) =
      .ok { config with traceEvents := asked } := by
  cases asked with
  | true => rfl
  | false =>
    cases config
    cases h
    rfl

theorem set_backend (backend : Backend) :
    sandboxGrammar.act config (.pair "--backend".toList
      (if backend = .vm then "vm".toList else "namespace".toList)) =
      .ok { config with backend := backend } := by
  cases backend <;> rfl

theorem set_cpu {number : Nat} (hsize : number < 2 ^ 64) :
    sandboxGrammar.act config (.pair "--cpu".toList (Text.ofNat number)) =
      .ok { config with cpuSeconds := number } := by
  show (match Analyze.fromChars (Text.ofNat number) with | none => _ | some number => _) = _
  rw [Package.fromChars_ofNat hsize]
  rfl

theorem set_memory {number : Nat} (hsize : number < 2 ^ 64) :
    sandboxGrammar.act config (.pair "--memory".toList (Text.ofNat number)) =
      .ok { config with addressSpaceBytes := number } := by
  show (match Analyze.fromChars (Text.ofNat number) with | none => _ | some number => _) = _
  rw [Package.fromChars_ofNat hsize]
  rfl

theorem request_fits (request : SandboxRequest) :
    ∀ item ∈ request.items, sandboxGrammar.Fits item := by
  simp only [SandboxRequest.items, List.forall_mem_append, List.forall_mem_cons,
    List.not_mem_nil, false_imp_iff, implies_true, and_true]
  refine ⟨⟨?_, ?_⟩, ⟨rfl, rfl⟩, ⟨rfl, rfl⟩, ⟨rfl, rfl⟩⟩
  · intro item hitem
    split at hitem
    · rw [List.mem_singleton.mp hitem]
      exact ⟨rfl, rfl⟩
    · cases hitem
  · intro item hitem
    split at hitem
    · rw [List.mem_singleton.mp hitem]
      exact ⟨rfl, rfl⟩
    · cases hitem

theorem acts_request (request : SandboxRequest) :
    sandboxGrammar.acts {} request.items = .ok request.config := by
  simp only [SandboxRequest.items, List.append_assoc]
  rw [Grammar.acts_append_of_ok (set_sandboxNetwork request.networkNamespace rfl),
    Grammar.acts_append_of_ok (set_traceEvents request.traceEvents rfl),
    Grammar.acts_cons_of_ok (set_backend request.backend),
    Grammar.acts_cons_of_ok (set_cpu request.cpuSeconds_lt),
    Grammar.acts_cons_of_ok (set_memory request.addressSpaceBytes_lt), Grammar.acts_nil]
  rfl

/-- The configurations that `execell sandbox` can be asked for are the default one with
another back end, the network namespace, the trace, or one of the two limits. The target
behind the options is passed on as it is. -/
theorem sandboxOptions_iff (config : Config) {target : List Text}
    (htarget : ∀ arg ∈ target.head?, isOption arg = false) :
    (∃ args, parseSandbox (args ++ target) = .ok (config, target)) ↔
      ∃ request : SandboxRequest, config = request.config := by
  constructor
  · rintro ⟨args, h⟩
    exact requested_of_parse h
  · rintro ⟨request, rfl⟩
    exact ⟨request.items.flatMap Item.args,
      Grammar.read_items (request_fits request) (acts_request request) htarget⟩

theorem sandboxOptions_iff_memory :
    ∃ args, parseSandbox (args ++ ["/bin/true".toList, "--network".toList]) =
      .ok ({ addressSpaceBytes := 1048576, networkNamespace := true },
        ["/bin/true".toList, "--network".toList]) :=
  (sandboxOptions_iff _ (by decide)).mpr
    ⟨{ addressSpaceBytes := 1048576, networkNamespace := true }, rfl⟩

end Options

/-! ## What is then run -/

/-- A run on which nothing fails, with a network namespace. -/
def quietNetworkMoves : List Sandbox.Move := Sandbox.quietSetup [] (List.replicate 8 0)

/-- Whatever the arguments of `execell sandbox` are, whatever the system calls of the two
processes answer and however these interleave: if `capset` does not fail, the target is
started in its own user and mount namespaces, on a read-only root, without capabilities and
without the way to new ones. -/
theorem sandboxCommand_contained {args target : List Text} {config : Config}
    {host : Sandbox.Host} {ids : Sandbox.Ids} {pipe fork : Bool} {w w' : Sandbox.World}
    {moves : List Sandbox.Move} {outputs : List Unit}
    (hparse : parseSandbox args = .ok (config, target))
    (hlaunch : Sandbox.launch host config ids pipe fork = some w)
    (hcapset : Machine.Along Sandbox.setupStep (fun w move => ¬ Sandbox.CapsetFails w move) w moves)
    (hrun : Machine.run Sandbox.setupStep w moves = some (outputs, w'))
    (htarget : w'.AtTarget) :
    Sandbox.Contained config ids w'.done ∧ config.userNamespace = true ∧
      config.mountNamespace = true ∧ config.readOnlyRoot = true ∧
      config.dropCapabilities = true ∧ config.noNewPrivileges = true := by
  obtain ⟨request, rfl⟩ := requested_of_parse hparse
  exact ⟨Sandbox.contained_of_namespaces rfl rfl hlaunch hcapset hrun htarget, rfl, rfl, rfl, rfl,
    rfl⟩

theorem sandboxCommand_contained_network :
    let args := ["--network".toList, "/bin/true".toList]
    ∃ config w w' outputs, parseSandbox args = .ok (config, ["/bin/true".toList]) ∧
      Sandbox.launch {} config Sandbox.launchIds true true = some w ∧
      Machine.run Sandbox.setupStep w quietNetworkMoves = some (outputs, w') ∧
      w'.AtTarget ∧ Sandbox.Contained config Sandbox.launchIds w'.done := by
  intro args
  have hparse : parseSandbox args = .ok ({ networkNamespace := true }, ["/bin/true".toList]) := rfl
  obtain ⟨w, w', outputs, hlaunch, hrun, htarget, _⟩ :=
    Sandbox.exists_of_targetEffects (P := fun _ => true)
      (show (Sandbox.targetEffects { networkNamespace := true } Sandbox.launchIds
        quietNetworkMoves).any _ by decide)
  refine ⟨_, w, w', outputs, hparse, hlaunch, hrun, htarget, ?_⟩
  refine (sandboxCommand_contained hparse hlaunch ?_ hrun htarget).1
  apply Machine.along_of_forall_mem
  rintro move hmem v ⟨ops, progress, error, _, rfl⟩
  exact Sandbox.fail_not_mem_quietSetup hmem

end ExeCell.Cli
