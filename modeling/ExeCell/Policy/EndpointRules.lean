import ExeCell.Policy.Resources
import ExeCell.Trace.AddressText

/-!
# What an endpoint rule means

A rule that is a bare IPv4 address is meant for the endpoints of that host. The engine
compares it as the start of a text, and that text is the path of an event as well as its
endpoint: such a rule also meets longer addresses and files of that name
(`endpointRules_iff`).
-/

namespace ExeCell.Policy

open Report Trace

/-- The decimal numeral of a byte. -/
def IsOctet (text : Text) : Prop := ∃ value < 256, text = Text.ofNat value

/-- An IPv4 address without a port. -/
def BareIPv4 (rule : Text) : Prop :=
  (rule.splitOn '.').length = 4 ∧ ∀ part ∈ rule.splitOn '.', IsOctet part

instance (text : Text) : Decidable (IsOctet text) :=
  inferInstanceAs (Decidable (∃ value < 256, _))

instance (rule : Text) : Decidable (BareIPv4 rule) :=
  inferInstanceAs (Decidable (_ ∧ ∀ part ∈ rule.splitOn '.', IsOctet part))

/-- What stands before the last colon of an endpoint. -/
def hostPart (endpoint : Text) : Option Text :=
  match endpoint.reverse.dropWhile (· ≠ ':') with
  | [] => none
  | _ :: host => some host.reverse

/-- The meaning of an endpoint rule: a bare address denies its own host, any other rule the
endpoints it is the start of. -/
def RuleDenies (rule endpoint : Text) : Prop :=
  if BareIPv4 rule then hostPart endpoint = some rule else endpoint ≠ [] ∧ rule <+: endpoint

instance (rule endpoint : Text) : Decidable (RuleDenies rule endpoint) :=
  inferInstanceAs (Decidable (if BareIPv4 rule then hostPart endpoint = some rule
    else endpoint ≠ [] ∧ rule <+: endpoint))

/-- Some rule denies the endpoint. -/
def Config.DeniesEndpoint (config : Config) (endpoint : Text) : Prop :=
  ∃ rule ∈ config.deniedEndpoints, RuleDenies rule endpoint

/-- Some denied path is the start of the text. -/
def Config.StartsWithPath (config : Config) (text : Text) : Prop :=
  ∃ denied ∈ config.deniedPaths, denied <+: text

instance (config : Config) (endpoint : Text) : Decidable (config.DeniesEndpoint endpoint) :=
  inferInstanceAs (Decidable (∃ rule ∈ config.deniedEndpoints, _))

instance (config : Config) (text : Text) : Decidable (config.StartsWithPath text) :=
  inferInstanceAs (Decidable (∃ denied ∈ config.deniedPaths, _))

/-- The rules of a configuration do not get into each other's way on the event. -/
structure RulesApart (config : Config) (payload : Payload) : Prop where
  /-- An endpoint rule that is the start of a path comes too late. -/
  paths : ∀ path ∈ payload.path?, path ≠ [] → ∀ rule ∈ config.deniedEndpoints,
    rule <+: path → config.StartsWithPath path
  /-- A bare address is the start of no other host's endpoint, unless that endpoint is denied
  anyway. -/
  hosts : ∀ endpoint ∈ payload.endpoint?, ∀ rule ∈ config.deniedEndpoints, BareIPv4 rule →
    rule <+: endpoint → hostPart endpoint ≠ some rule → endpoint ≠ [] →
    config.DeniesEndpoint endpoint ∨ config.StartsWithPath endpoint
  /-- A path rule is the start of no endpoint that is denied. -/
  endpoints : ∀ endpoint ∈ payload.endpoint?, config.DeniesEndpoint endpoint →
    ¬ config.StartsWithPath endpoint

/-! ## Hosts -/

theorem hostPart_append {host port : Text} (h : ':' ∉ port) :
    hostPart (host ++ ':' :: port) = some host := by
  have hport : ∀ c ∈ port.reverse, decide (c ≠ ':') = true := by
    intro c hc
    rw [decide_eq_true_eq]
    rintro rfl
    exact h (List.mem_reverse.mp hc)
  rw [hostPart, List.reverse_append, List.reverse_cons, List.append_assoc,
    List.dropWhile_append_of_pos hport, List.singleton_append, List.dropWhile_cons,
    if_neg (by simp)]
  simp

theorem of_hostPart {endpoint host : Text} (h : hostPart endpoint = some host) :
    host ++ [':'] <+: endpoint := by
  rw [hostPart] at h
  split at h
  · cases h
  · rename_i c rest hrest
    have hcolon : c = ':' := by
      have hhead := List.head?_dropWhile_not (fun c => decide (c ≠ ':')) endpoint.reverse
      rw [hrest, List.head?_cons] at hhead
      simpa using hhead
    have hsuffix : c :: rest <:+ endpoint.reverse := hrest ▸ List.dropWhile_suffix _
    rw [← Option.some.inj h, ← hcolon, ← List.reverse_cons]
    rw [← List.reverse_prefix, List.reverse_reverse] at hsuffix
    exact hsuffix

/-- The host of an IPv4 endpoint is its address. -/
theorem hostPart_renderAddress {bytes : List Char} (h : familyOf bytes = afInet) :
    hostPart (renderAddress bytes) = some (inetNtop4 bytes 4) := by
  rw [renderAddress_inet h]
  exact hostPart_append (Text.not_mem_ofNat (by decide) _)

theorem RuleDenies.starts {rule endpoint : Text} (h : RuleDenies rule endpoint) :
    endpoint ≠ [] ∧ rule <+: endpoint := by
  rw [RuleDenies] at h
  split at h
  · have hstart := of_hostPart h
    refine ⟨?_, (List.prefix_append ..).trans hstart⟩
    rintro rfl
    exact absurd (List.prefix_nil.mp hstart) (by simp)
  · exact h

/-- A rule that starts an endpoint without denying it is the address of another host. -/
theorem bareIPv4_of_not_ruleDenies {rule endpoint : Text} (hne : endpoint ≠ [])
    (hstart : rule <+: endpoint) (h : ¬ RuleDenies rule endpoint) :
    BareIPv4 rule ∧ hostPart endpoint ≠ some rule := by
  rw [RuleDenies] at h
  split at h
  · rename_i hbare
    exact ⟨hbare, h⟩
  · exact absurd ⟨hne, hstart⟩ h

/-! ## Events -/

section Events

variable {payload : Payload} {path endpoint : Text}

theorem resource_of_path (h : payload.path? = some path) : resource payload = path := by
  rw [resource, h]

theorem resource_of_endpoint (h : payload.endpoint? = some endpoint) :
    payload.path? = none ∧ resource payload = endpoint := by
  cases payload <;> cases h <;> exact ⟨rfl, rfl⟩

theorem resource_of_neither (hpath : payload.path? = none) (h : payload.endpoint? = none) :
    resource payload = [] := by
  rw [resource, hpath, h]
  rfl

end Events

/-- An event without an endpoint is not reported as a denied one, and an event with an
endpoint is when a rule denies it: this holds exactly where the rules are kept apart. -/
theorem endpointRules_iff {ρ : Type} (R : Reporter ρ) (s : Front ρ) (event : Event) :
    ((ReportsDeniedEndpoint R s event → event.payload.endpoint?.isSome) ∧
        ∀ endpoint ∈ event.payload.endpoint?,
          (ReportsDeniedEndpoint R s event ↔ s.engine.config.DeniesEndpoint endpoint)) ↔
      RulesApart s.engine.config event.payload := by
  rw [reportsDeniedEndpoint_iff]
  have hpaths : ∀ text, (∀ denied ∈ s.engine.config.deniedPaths, ¬ denied <+: text) ↔
      ¬ s.engine.config.StartsWithPath text := by
    intro text
    rw [Config.StartsWithPath]
    push Not
    exact Iff.rfl
  rw [hpaths]
  cases hendpoint : event.payload.endpoint? with
  | some endpoint =>
    obtain ⟨hnone, hresource⟩ := resource_of_endpoint hendpoint
    rw [hresource]
    constructor
    · rintro ⟨-, hreported⟩
      have hdenied := hreported endpoint rfl
      refine ⟨fun path hpath => ?_, fun e he rule hrule hbare hstart hhost hne => ?_,
        fun e he hdenies => ?_⟩
      · rw [hnone] at hpath
        cases hpath
      · cases hendpoint.symm.trans he
        by_contra hneither
        rw [not_or] at hneither
        exact hneither.1 (hdenied.mp ⟨hneither.2, hne, rule, hrule, hstart⟩)
      · cases hendpoint.symm.trans he
        exact (hdenied.mpr hdenies).1
    · intro hapart
      refine ⟨fun _ => rfl, fun e he => ?_⟩
      cases he
      constructor
      · rintro ⟨hclear, hne, rule, hrule, hstart⟩
        by_cases hdenies : RuleDenies rule endpoint
        · exact ⟨rule, hrule, hdenies⟩
        · obtain ⟨hbare, hhost⟩ := bareIPv4_of_not_ruleDenies hne hstart hdenies
          exact (hapart.hosts endpoint hendpoint rule hrule hbare hstart hhost hne).resolve_right
            hclear
      · intro hdenies
        obtain ⟨rule, hrule, hrules⟩ := hdenies
        obtain ⟨hne, hstart⟩ := hrules.starts
        exact ⟨hapart.endpoints endpoint hendpoint ⟨rule, hrule, hrules⟩, hne, rule, hrule, hstart⟩
  | none =>
    have hnotSome : ¬ (none : Option Text).isSome = true := Bool.false_ne_true
    constructor
    · rintro ⟨hreported, -⟩
      refine ⟨fun path hpath hne rule hrule hstart => ?_, fun e he => ?_, fun e he => ?_⟩
      · rw [resource_of_path hpath] at hreported
        by_contra hclear
        exact hnotSome (hreported ⟨hclear, hne, rule, hrule, hstart⟩)
      · rw [hendpoint] at he
        cases he
      · rw [hendpoint] at he
        cases he
    · intro hapart
      refine ⟨fun hreported => ?_, fun e he => nomatch he⟩
      obtain ⟨hclear, hne, rule, hrule, hstart⟩ := hreported
      cases hpath : event.payload.path? with
      | none => exact absurd (resource_of_neither hpath hendpoint) hne
      | some path =>
        rw [resource_of_path hpath] at hclear hne hstart
        exact absurd (hapart.paths path hpath hne rule hrule hstart) hclear

/-- A reporter front that denies the host 10.0.0.1. -/
def denyHost : Front (List Event) :=
  { engine := { config := { deniedEndpoints := ["10.0.0.1".toList] } }, downstream := [] }

/-- The rule for 10.0.0.1 meets 10.0.0.10 and a file. -/
theorem denyHost_overreaches :
    BareIPv4 "10.0.0.1".toList ∧
      hostPart "10.0.0.10:80".toList = some "10.0.0.10".toList ∧
      ((reporter recorder).report denyHost
          ⟨.networkConnected 3 "10.0.0.10:80".toList, {}⟩).engine.violations =
        [⟨"denied-endpoint".toList, "10.0.0.10:80".toList, {}⟩] ∧
      ((reporter recorder).report denyHost
          ⟨.fileOpened 3 "10.0.0.1.txt".toList, {}⟩).engine.violations =
        [⟨"denied-endpoint".toList, "10.0.0.1.txt".toList, {}⟩] := by
  decide +kernel

end ExeCell.Policy
