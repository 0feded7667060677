import ExeCell.Lib.Uri
import ExeCell.Package.Aur
import ExeCell.Package.Network

/-!
# The sources of a build

The first part of `build::run`: the PKGBUILD is parsed, and with the network enabled every
source has to have its host on the list of allowed hosts. The host is cut out of the text
between `://` and the next `/` or `:`, which may be user information, and a source for
which nothing comes out is let through.

`sourceCheck_sound_iff` says for which PKGBUILDs a list lets no host through that is not
on it.
-/

namespace ExeCell.Package.Build

open Aur (Pkgbuild Manifest Source parse)
open Network (schemeEnd)

/-- `build::Options`, as far as the check reads it. -/
structure BuildOptions where
  network : Bool := false
  allowedHosts : List Text := []
  deriving DecidableEq, Repr

/-- `build::Result`, as far as it is written before the workspace is created. -/
structure BuildResult where
  ok : Bool := false
  error : Text := []
  findings : List Text := []
  phases : List Text := []
  deriving DecidableEq, Repr

def hostFromSource (source : Text) : Text :=
  match Search.afterFirst schemeEnd source with
  | none => []
  | some host => host.takeWhile fun c => c ≠ '/' && c ≠ ':'

def allowed (host : Text) (allowlist : List Text) : Bool := allowlist.any fun entry => host = entry

/-- The loop over the sources: the first host that is refused. -/
def refusedHost (options : BuildOptions) : List Source → Option Text
  | [] => none
  | source :: sources =>
    let host := hostFromSource source.value
    if !host.isEmpty && options.network && !allowed host options.allowedHosts then some host
    else refusedHost options sources

/-- `run` up to the check of the sources: the result it returns with, or the manifest with
which it goes on. -/
def runChecks (file : Pkgbuild) (options : BuildOptions) :
    Except BuildResult (Manifest × BuildResult) :=
  match parse file with
  | .error message => .error { error := message }
  | .ok manifest =>
    let result : BuildResult := { findings := manifest.findings, phases := manifest.phases }
    match refusedHost options manifest.sources with
    | some host =>
      .error { result with
        error := "source host is not allowlisted: ".toList ++ host
        findings :=
          result.findings ++ ["network source rejected by allowlist: ".toList ++ host] }
    | none => .ok (manifest, result)

/-! ## What the check is for -/

/-- The host of the authority behind the first `://`. -/
def authorityHost (source : Text) : Option Text :=
  (Search.afterFirst schemeEnd source).map fun rest => Uri.hostOf (Uri.authorityOf rest)

/-- Every source with a `://` that gets past the check has a host, and its host is on the
list. -/
def Sound (file : Pkgbuild) (options : BuildOptions) : Prop :=
  ∀ manifest result, runChecks file options = .ok (manifest, result) →
    ∀ source ∈ manifest.sources, ∀ host, authorityHost source.value = some host →
      hostFromSource source.value ≠ [] ∧ host ≠ [] ∧ host ∈ options.allowedHosts

/-- The loop over the sources ends at this one: what stands between `://` and the next `/`
or `:` is not on the list. -/
def Refused (hosts : List Text) (source : Text) : Prop :=
  hostFromSource source ≠ [] ∧ hostFromSource source ∉ hosts

/-- If the source has a `://`, what stands between it and the next `/` or `:` is not empty and
is the host of the authority; or that host is another one, which is on the list as well. -/
def ReadRight (hosts : List Text) (source : Text) : Prop :=
  ∀ host, authorityHost source = some host → hostFromSource source ≠ [] ∧
    (host = hostFromSource source ∨ host ≠ [] ∧ host ∈ hosts)

/-- The loop ends at some source, or the sources, all of which it reaches, are read right. -/
def HostsExtracted (file : Pkgbuild) (hosts : List Text) : Prop :=
  ∀ manifest, parse file = .ok manifest →
    (∃ source ∈ manifest.sources, Refused hosts source.value) ∨
      ∀ source ∈ manifest.sources, ReadRight hosts source.value

section Check

variable {file : Pkgbuild} {options : BuildOptions}

theorem allowed_iff {host : Text} {allowlist : List Text} :
    allowed host allowlist = true ↔ host ∈ allowlist := by
  rw [allowed, List.any_eq_true]
  constructor
  · rintro ⟨entry, hmem, heq⟩
    exact of_decide_eq_true heq ▸ hmem
  · intro hmem
    exact ⟨host, hmem, by simp⟩

/-- The loop comes to its end if every host that it finds is on the list. -/
theorem refusedHost_eq_none (hnetwork : options.network = true) (sources : List Source) :
    refusedHost options sources = none ↔
      ∀ source ∈ sources, hostFromSource source.value ≠ [] →
        hostFromSource source.value ∈ options.allowedHosts := by
  induction sources with
  | nil => simp [refusedHost]
  | cons source sources ih =>
    rw [refusedHost, List.forall_mem_cons, ← ih, ← allowed_iff, hnetwork, Bool.and_true]
    cases hempty : (hostFromSource source.value).isEmpty with
    | true =>
      have hnil : hostFromSource source.value = [] := List.isEmpty_iff.mp hempty
      simp [hnil]
    | false =>
      have hne : hostFromSource source.value ≠ [] := List.isEmpty_eq_false_iff.mp hempty
      cases hallowed : allowed (hostFromSource source.value) options.allowedHosts with
      | true => simp
      | false => simp [hne]

theorem runChecks_ok_iff {manifest : Manifest} :
    (∃ result, runChecks file options = .ok (manifest, result)) ↔
      parse file = .ok manifest ∧ refusedHost options manifest.sources = none := by
  rw [runChecks]
  cases hparse : parse file with
  | error message => simp
  | ok parsed =>
    dsimp only
    cases hrefused : refusedHost options parsed.sources with
    | some host =>
      dsimp only
      simp only [reduceCtorEq, exists_false, Except.ok.injEq, false_iff, not_and]
      rintro rfl
      simp [hrefused]
    | none =>
      simp only [Except.ok.injEq, Prod.mk.injEq, exists_and_left]
      constructor
      · rintro ⟨rfl, _⟩
        exact ⟨rfl, hrefused⟩
      · rintro ⟨rfl, _⟩
        exact ⟨rfl, _, rfl⟩

theorem refusedHost_ne_none (hnetwork : options.network = true) {sources : List Source} :
    refusedHost options sources ≠ none ↔
      ∃ source ∈ sources, Refused options.allowedHosts source.value := by
  rw [ne_eq, refusedHost_eq_none hnetwork]
  simp only [Refused, not_forall, exists_prop]

/-- A source that the loop lets go on is let through rightly exactly when it is read right. -/
theorem readRight_iff {hosts : List Text} {source : Text} (h : ¬Refused hosts source) :
    ReadRight hosts source ↔ ∀ host, authorityHost source = some host →
      hostFromSource source ≠ [] ∧ host ≠ [] ∧ host ∈ hosts := by
  constructor
  · intro hright host hhost
    obtain ⟨hfound, heq | hlisted⟩ := hright host hhost
    · have hmem : hostFromSource source ∈ hosts := by
        by_contra hmissing
        exact h ⟨hfound, hmissing⟩
      rw [heq]
      exact ⟨hfound, hfound, hmem⟩
    · exact ⟨hfound, hlisted⟩
  · intro hsound host hhost
    obtain ⟨hfound, hlisted⟩ := hsound host hhost
    exact ⟨hfound, Or.inr hlisted⟩

/-- For every PKGBUILD and every list of allowed hosts: with the network enabled only sources
of allowed hosts get past the check if and only if the loop ends at a source, or reads every
one of them right. -/
theorem sourceCheck_sound_iff (file : Pkgbuild) (hosts : List Text) :
    Sound file { network := true, allowedHosts := hosts } ↔ HostsExtracted file hosts := by
  constructor
  · intro h manifest hparse
    by_cases hrefused :
        refusedHost { network := true, allowedHosts := hosts } manifest.sources = none
    · obtain ⟨result, hpast⟩ := runChecks_ok_iff.mpr ⟨hparse, hrefused⟩
      have hsound := h manifest result hpast
      refine Or.inr fun source hsource => (readRight_iff ?_).mpr (hsound source hsource)
      intro hends
      exact (refusedHost_ne_none rfl).mpr ⟨source, hsource, hends⟩ hrefused
    · exact Or.inl ((refusedHost_ne_none rfl).mp hrefused)
  · intro h manifest result hpast source hsource
    obtain ⟨hparse, hnone⟩ := runChecks_ok_iff.mp ⟨result, hpast⟩
    have hgoesOn : ∀ other ∈ manifest.sources, ¬Refused hosts other.value := by
      intro other hother hends
      exact (refusedHost_ne_none rfl).mpr ⟨other, hother, hends⟩ hnone
    rcases h manifest hparse with ⟨other, hother, hends⟩ | hright
    · exact absurd hends (hgoesOn other hother)
    · exact (readRight_iff (hgoesOn source hsource)).mp (hright source hsource)

end Check

def pkgbuild (source : Text) : Pkgbuild where
  size := source.length + 29
  text := "pkgname=a\npkgver=1\nsource=(".toList ++ source ++ ")\n".toList

/-- The only source gets past the check, and its host is not allowed. -/
theorem not_sound_of_source {text host : Text} {options : BuildOptions}
    (hpast : ∃ manifest result, runChecks (pkgbuild text) options = .ok (manifest, result) ∧
      manifest.sources = [{ value := text, hash := [] }])
    (hhost : authorityHost text = some host) (hnot : host = [] ∨ host ∉ options.allowedHosts) :
    ¬ Sound (pkgbuild text) options := by
  intro h
  obtain ⟨manifest, result, hok, hsources⟩ := hpast
  have hsource : { value := text, hash := [] } ∈ manifest.sources := by
    rw [hsources]
    exact List.mem_singleton.mpr rfl
  obtain ⟨_, hne, hlisted⟩ := h manifest result hok _ hsource host hhost
  rcases hnot with hempty | hmissing
  · exact hne hempty
  · exact hmissing hlisted

/-- With one allowed host, a source of another one gets past the check behind a user name,
and with none at all a source without a host does. -/
theorem sourceCheck_not_sound :
    ¬ Sound (pkgbuild "https://ok:x@evil/p".toList)
      { network := true, allowedHosts := ["ok".toList] } ∧
    ¬ Sound (pkgbuild "https:///p".toList) { network := true, allowedHosts := [] } := by
  constructor
  · apply not_sound_of_source ⟨_, _, rfl, rfl⟩ (show _ = some "evil".toList by decide)
    exact Or.inr (by decide)
  · apply not_sound_of_source ⟨_, _, rfl, rfl⟩ (show _ = some [] by decide)
    exact Or.inl rfl

end ExeCell.Package.Build
