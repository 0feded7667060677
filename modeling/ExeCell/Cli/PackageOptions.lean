import ExeCell.Lib.CommandLine
import ExeCell.Package.Scan
import ExeCell.Package.Timeouts

/-!
# The options of the package commands

The loop of `main` over the options of `execell package`, and the two checks behind it. What
it accepts is described by `Accepted`, field by field, and every value that is so described
can be asked for on the command line.
-/

namespace ExeCell.Cli

open CommandLine
open Package (PackageOptions timeoutOption)
open Package.Network (validMirror)

/-- `package::Options`. The timeout is the number of seconds as the sandboxes get it, without
its sign. -/
structure PackageArgs extends PackageOptions where
  runAll : Bool := false
  byteDiff : Bool := false
  confirmPrivileged : Bool := false
  format : Text := "terminal".toList
  allowedHosts : List Text := []
  database : Text := "/tmp/execell-package/observations.db".toList
  buildRepetitions : Nat := 1
  deriving DecidableEq, Repr

/-- `starts_with("--")`. -/
def isOption (arg : Text) : Bool := "--".toList.isPrefixOf arg

/-- The options without a value. -/
def packageFlag (option : Text) : Option (PackageArgs → Except Text PackageArgs) :=
  if option = "--privileged".toList then
    some fun _ =>
      .error "execell: privileged package scanning is disabled; rootless only\n".toList
  else if option = "--yes".toList then
    some fun _ =>
      .error "execell: --yes is only valid with disabled privileged scanning\n".toList
  else if option = "--run-all".toList then some fun options => .ok { options with runAll := true }
  else if option = "--byte-diff".toList then
    some fun options => .ok { options with byteDiff := true }
  else none

/-- A number that is read as a whole and lies between the two bounds. -/
def boundedNumber (value : Text) (low high : Nat) : Option Nat :=
  match Analyze.fromChars value with
  | none => none
  | some number => if low ≤ number ∧ number ≤ high then some number else none

/-- The options with a value. -/
def packageSet (option value : Text) (options : PackageArgs) : Except Text PackageArgs :=
  if option = "--format".toList then
    if value ≠ "terminal".toList ∧ value ≠ "json".toList ∧ value ≠ "jsonl".toList then
      .error "execell: invalid package format\n".toList
    else .ok { options with format := value }
  else if option = "--network".toList then
    if value ≠ "off".toList ∧ value ≠ "mirror".toList then
      .error "execell: invalid package network policy\n".toList
    else .ok { options with network := value }
  else if option = "--mirror".toList then
    if !validMirror value then .error "execell: invalid mirror URL\n".toList
    else .ok { options with mirrors := options.mirrors ++ [value] }
  else if option = "--allow-host".toList then
    if value = [] ∨ '/' ∈ value ∨ '\x00' ∈ value then
      .error "execell: invalid allowed host\n".toList
    else .ok { options with allowedHosts := options.allowedHosts ++ [value] }
  else if option = "--rootfs".toList then .ok { options with rootfs := value }
  else if option = "--timeout".toList then
    match timeoutOption value with
    | none => .error "execell: invalid package timeout\n".toList
    | some seconds => .ok { options with timeout := (seconds % 2 ^ 64).toNat }
  else if option = "--workers".toList then
    match boundedNumber value 1 128 with
    | none => .error "execell: invalid package worker count\n".toList
    | some number => .ok { options with workers := number }
  else if option = "--database".toList then .ok { options with database := value }
  else if option = "--cgroup-root".toList then .ok { options with cgroupRoot := value }
  else if option = "--rebuild".toList then
    match boundedNumber value 1 3 with
    | none => .error "execell: invalid rebuild count\n".toList
    | some number => .ok { options with buildRepetitions := number }
  else .error ("execell: unknown package option: ".toList ++ option ++ ['\n'])

def packageGrammar : Grammar Text PackageArgs Text where
  isOption := isOption
  flag := packageFlag
  missing option := "execell: missing value for ".toList ++ option ++ ['\n']
  set := packageSet

/-- The options of `execell package`, and the arguments behind them, or what is written to
the standard error output. -/
def parsePackage (args : List Text) : Except Text (PackageArgs × List Text) :=
  match packageGrammar.read {} args with
  | .error message => .error message
  | .ok (options, rest) =>
    if options.network = "mirror".toList ∧ options.mirrors = [] then
      .error "execell: --network mirror requires --mirror URL\n".toList
    else if options.network = "off".toList ∧ options.mirrors ≠ [] then
      .error "execell: --mirror requires --network mirror\n".toList
    else .ok (options, rest)

/-! ## What is accepted -/

/-- A host name as `--allow-host` takes it. -/
def AllowedHost (host : Text) : Prop := host ≠ [] ∧ '/' ∉ host ∧ '\x00' ∉ host

/-- What every option keeps. -/
structure Sound (options : PackageArgs) : Prop where
  privileged : options.privileged = false
  confirmPrivileged : options.confirmPrivileged = false
  format : options.format ∈ ["terminal".toList, "json".toList, "jsonl".toList]
  network : options.network = "off".toList ∨ options.network = "mirror".toList
  mirrors : ∀ mirror ∈ options.mirrors, validMirror mirror = true
  allowedHosts : ∀ host ∈ options.allowedHosts, AllowedHost host
  timeout : 1 ≤ options.timeout ∧ options.timeout < 2 ^ 64
  workers : 1 ≤ options.workers ∧ options.workers ≤ 128
  buildRepetitions : 1 ≤ options.buildRepetitions ∧ options.buildRepetitions ≤ 3
  sessionRoot : options.sessionRoot = "/tmp/execell-package".toList

/-- The options that are accepted: mirrors are given exactly when the network is theirs. -/
structure Accepted (options : PackageArgs) : Prop extends Sound options where
  mirrored : options.network = "mirror".toList ↔ options.mirrors ≠ []

section Sound

variable {options options' : PackageArgs}

theorem sound_default : Sound {} :=
  ⟨rfl, rfl, by simp, Or.inl rfl, by simp, by simp, by decide, by decide, by decide, rfl⟩

theorem boundedNumber_eq_some {value : Text} {low high number : Nat}
    (h : boundedNumber value low high = some number) : low ≤ number ∧ number ≤ high := by
  rw [boundedNumber] at h
  split at h
  · cases h
  · split at h
    · rename_i hbounds
      cases h
      exact hbounds
    · cases h

theorem fromChars_lt {value : Text} {number : Nat} (h : Analyze.fromChars value = some number) :
    number < 2 ^ 64 := by
  rw [Analyze.fromChars] at h
  split at h
  · rw [Option.ite_none_right_eq_some] at h
    exact Option.some.inj h.2 ▸ h.1
  · cases h

theorem timeoutOption_eq_some {value : Text} {seconds : Int}
    (h : timeoutOption value = some seconds) :
    ∃ number : Nat, 1 ≤ number ∧ number < 2 ^ 64 ∧ seconds = toInt64 number := by
  rw [timeoutOption] at h
  generalize (if value.getLast? = some 's' then value.dropLast else value) = digits at h
  cases hnumber : Analyze.fromChars digits with
  | none =>
    simp only [hnumber] at h
    cases h
  | some number =>
    simp only [hnumber, Option.ite_none_left_eq_some, Option.some.injEq] at h
    exact ⟨number, by omega, fromChars_lt hnumber, h.2.symm⟩

/-- The seconds as a number without a sign. -/
theorem unsigned_toInt64 {number : Nat} (h : number < 2 ^ 64) :
    (toInt64 number % 2 ^ 64).toNat = number := by
  have hmod : toInt64 number % ((2 ^ 64 : Nat) : Int) = (number : Int) % ((2 ^ 64 : Nat) : Int) :=
    Int.bmod_emod
  rw [show ((2 : Int) ^ 64) = ((2 ^ 64 : Nat) : Int) from rfl, hmod]
  omega

theorem sound_flag {option : Text} {act : PackageArgs → Except Text PackageArgs}
    (hsound : Sound options) (hflag : packageFlag option = some act)
    (h : act options = .ok options') : Sound options' := by
  rw [packageFlag] at hflag
  split at hflag
  · cases hflag
    cases h
  split at hflag
  · cases hflag
    cases h
  split at hflag
  · cases hflag
    cases h
    exact { hsound with }
  split at hflag
  · cases hflag
    cases h
    exact { hsound with }
  · cases hflag

theorem sound_set {option value : Text} (hsound : Sound options)
    (h : packageSet option value options = .ok options') : Sound options' := by
  rw [packageSet] at h
  split at h
  · -- the format
    split at h
    · cases h
    · rename_i hformat
      cases h
      refine { hsound with format := ?_ }
      simp only [List.mem_cons, List.not_mem_nil, or_false]
      by_contra hnone
      rw [not_or, not_or] at hnone
      exact hformat hnone
  split at h
  · -- the network
    split at h
    · cases h
    · rename_i hnetwork
      cases h
      refine { hsound with network := ?_ }
      by_contra hnone
      rw [not_or] at hnone
      exact hnetwork hnone
  split at h
  · -- a mirror
    split at h
    · cases h
    · rename_i hmirror
      cases h
      refine { hsound with mirrors := ?_ }
      rw [List.forall_mem_append, List.forall_mem_singleton]
      exact ⟨hsound.mirrors, by simpa using hmirror⟩
  split at h
  · -- a host
    split at h
    · cases h
    · rename_i hhost
      cases h
      refine { hsound with allowedHosts := ?_ }
      rw [List.forall_mem_append, List.forall_mem_singleton]
      rw [not_or, not_or] at hhost
      exact ⟨hsound.allowedHosts, hhost⟩
  split at h
  · cases h
    exact { hsound with }
  split at h
  · -- the timeout
    split at h
    · cases h
    · rename_i seconds hseconds
      cases h
      obtain ⟨number, hpositive, hsize, hnumber⟩ := timeoutOption_eq_some hseconds
      refine { hsound with timeout := ?_ }
      rw [hnumber, unsigned_toInt64 hsize]
      exact ⟨hpositive, hsize⟩
  split at h
  · -- the number of workers
    split at h
    · cases h
    · rename_i number hnumber
      cases h
      exact { hsound with workers := boundedNumber_eq_some hnumber }
  split at h
  · cases h
    exact { hsound with }
  split at h
  · cases h
    exact { hsound with }
  split at h
  · -- the number of builds
    split at h
    · cases h
    · rename_i number hnumber
      cases h
      exact { hsound with buildRepetitions := boundedNumber_eq_some hnumber }
  · cases h

theorem sound_act {item : Item Text} (hfits : packageGrammar.Fits item) (hsound : Sound options)
    (h : packageGrammar.act options item = .ok options') : Sound options' := by
  cases item with
  | flag option =>
    obtain ⟨act, hflag⟩ := Option.isSome_iff_exists.mp hfits.2
    simp only [Grammar.act, hflag] at h
    exact sound_flag hsound hflag h
  | pair option value => exact sound_set hsound h

/-- Whatever the command line is, the options that are read off it are accepted ones. -/
theorem accepted_of_parse {args rest : List Text} (h : parsePackage args = .ok (options, rest)) :
    Accepted options := by
  rw [parsePackage] at h
  split at h
  · cases h
  · rename_i options rest hread
    have hsound : Sound options :=
      Grammar.read_invariant Sound (fun _ _ _ hfits h hact => sound_act hfits h hact)
        sound_default hread
    split at h
    · cases h
    · rename_i hmirror
      split at h
      · cases h
      · rename_i hoff
        cases h
        refine { hsound with mirrored := ?_ }
        constructor
        · intro hnetwork hnil
          exact hmirror ⟨hnetwork, hnil⟩
        · intro hmirrors
          rcases hsound.network with hnetwork | hnetwork
          · exact absurd ⟨hnetwork, hmirrors⟩ hoff
          · exact hnetwork

end Sound

/-! ## Asking for options -/

/-- A command line for the options. -/
def packageItems (options : PackageArgs) : List (Item Text) :=
  (if options.runAll then [.flag "--run-all".toList] else []) ++
    (if options.byteDiff then [.flag "--byte-diff".toList] else []) ++
    [.pair "--format".toList options.format, .pair "--network".toList options.network] ++
    options.mirrors.map (.pair "--mirror".toList) ++
    options.allowedHosts.map (.pair "--allow-host".toList) ++
    [.pair "--rootfs".toList options.rootfs,
      .pair "--timeout".toList (Text.ofNat options.timeout),
      .pair "--workers".toList (Text.ofNat options.workers),
      .pair "--database".toList options.database,
      .pair "--cgroup-root".toList options.cgroupRoot,
      .pair "--rebuild".toList (Text.ofNat options.buildRepetitions)]

section Complete

variable {options : PackageArgs} {value : Text}

/-- An item that is given under a condition. -/
theorem fits_given {given : Bool} {item : Item Text} (h : packageGrammar.Fits item) :
    ∀ other ∈ if given then [item] else [], packageGrammar.Fits other := by
  intro other hother
  split at hother
  · rw [List.mem_singleton.mp hother]
    exact h
  · cases hother

theorem packageItems_fit (options : PackageArgs) :
    ∀ item ∈ packageItems options, packageGrammar.Fits item := by
  simp only [packageItems, List.forall_mem_append, List.forall_mem_map, List.forall_mem_cons,
    List.not_mem_nil, false_imp_iff, implies_true, and_true]
  refine ⟨⟨⟨⟨⟨?_, ?_⟩, ⟨rfl, rfl⟩, ⟨rfl, rfl⟩⟩, ?_⟩, ?_⟩, ⟨rfl, rfl⟩, ⟨rfl, rfl⟩, ⟨rfl, rfl⟩, ⟨rfl, rfl⟩,
    ⟨rfl, rfl⟩, ⟨rfl, rfl⟩⟩
  · exact fits_given ⟨rfl, rfl⟩
  · exact fits_given ⟨rfl, rfl⟩
  · intro mirror _
    exact ⟨rfl, rfl⟩
  · intro host _
    exact ⟨rfl, rfl⟩

theorem boundedNumber_ofNat {low high number : Nat} (hlow : low ≤ number) (hhigh : number ≤ high)
    (hsize : high < 2 ^ 64) : boundedNumber (Text.ofNat number) low high = some number := by
  rw [boundedNumber, Package.fromChars_ofNat (by omega)]
  exact if_pos ⟨hlow, hhigh⟩

theorem set_format (h : value ∈ ["terminal".toList, "json".toList, "jsonl".toList]) :
    packageGrammar.act options (.pair "--format".toList value) =
      .ok { options with format := value } := by
  simp only [List.mem_cons, List.not_mem_nil, or_false] at h
  rcases h with rfl | rfl | rfl <;> rfl

theorem set_network (h : value = "off".toList ∨ value = "mirror".toList) :
    packageGrammar.act options (.pair "--network".toList value) =
      .ok { options with network := value } := by
  rcases h with rfl | rfl <;> rfl

theorem set_mirror (h : validMirror value = true) :
    packageGrammar.act options (.pair "--mirror".toList value) =
      .ok { options with mirrors := options.mirrors ++ [value] } := by
  show (if !validMirror value then _ else _) = _
  rw [h]
  rfl

theorem set_allowHost (h : AllowedHost value) :
    packageGrammar.act options (.pair "--allow-host".toList value) =
      .ok { options with allowedHosts := options.allowedHosts ++ [value] } := by
  show (if value = [] ∨ '/' ∈ value ∨ '\x00' ∈ value then _ else _) = _
  rw [if_neg]
  rw [not_or, not_or]
  exact h

theorem set_rootfs :
    packageGrammar.act options (.pair "--rootfs".toList value) =
      .ok { options with rootfs := value } := rfl

theorem set_database :
    packageGrammar.act options (.pair "--database".toList value) =
      .ok { options with database := value } := rfl

theorem set_cgroupRoot :
    packageGrammar.act options (.pair "--cgroup-root".toList value) =
      .ok { options with cgroupRoot := value } := rfl

theorem set_timeout {number : Nat} (hpositive : 1 ≤ number) (hsize : number < 2 ^ 64) :
    packageGrammar.act options (.pair "--timeout".toList (Text.ofNat number)) =
      .ok { options with timeout := number } := by
  show (match timeoutOption (Text.ofNat number) with | none => _ | some seconds => _) = _
  rw [Package.timeoutOption_ofNat hpositive hsize]
  dsimp only
  rw [unsigned_toInt64 hsize]

theorem set_workers {number : Nat} (h : 1 ≤ number ∧ number ≤ 128) :
    packageGrammar.act options (.pair "--workers".toList (Text.ofNat number)) =
      .ok { options with workers := number } := by
  show (match boundedNumber (Text.ofNat number) 1 128 with | none => _ | some number => _) = _
  rw [boundedNumber_ofNat h.1 h.2 (by decide)]

theorem set_rebuild {number : Nat} (h : 1 ≤ number ∧ number ≤ 3) :
    packageGrammar.act options (.pair "--rebuild".toList (Text.ofNat number)) =
      .ok { options with buildRepetitions := number } := by
  show (match boundedNumber (Text.ofNat number) 1 3 with | none => _ | some number => _) = _
  rw [boundedNumber_ofNat h.1 h.2 (by decide)]

theorem set_mirrors {mirrors : List Text} (h : ∀ mirror ∈ mirrors, validMirror mirror = true) :
    packageGrammar.acts options (mirrors.map (.pair "--mirror".toList)) =
      .ok { options with mirrors := options.mirrors ++ mirrors } := by
  induction mirrors generalizing options with
  | nil => rw [List.map_nil, Grammar.acts_nil, List.append_nil]
  | cons mirror mirrors ih =>
    rw [List.forall_mem_cons] at h
    rw [List.map_cons, Grammar.acts_cons_eq_ok]
    refine ⟨_, set_mirror h.1, ?_⟩
    rw [ih h.2, List.append_assoc, List.singleton_append]

theorem set_allowHosts {hosts : List Text} (h : ∀ host ∈ hosts, AllowedHost host) :
    packageGrammar.acts options (hosts.map (.pair "--allow-host".toList)) =
      .ok { options with allowedHosts := options.allowedHosts ++ hosts } := by
  induction hosts generalizing options with
  | nil => rw [List.map_nil, Grammar.acts_nil, List.append_nil]
  | cons host hosts ih =>
    rw [List.forall_mem_cons] at h
    rw [List.map_cons, Grammar.acts_cons_eq_ok]
    refine ⟨_, set_allowHost h.1, ?_⟩
    rw [ih h.2, List.append_assoc, List.singleton_append]

theorem set_runAll (asked : Bool) (h : options.runAll = false) :
    packageGrammar.acts options (if asked then [.flag "--run-all".toList] else []) =
      .ok { options with runAll := asked } := by
  cases asked with
  | true => rfl
  | false =>
    cases options
    cases h
    rfl

theorem set_byteDiff (asked : Bool) (h : options.byteDiff = false) :
    packageGrammar.acts options (if asked then [.flag "--byte-diff".toList] else []) =
      .ok { options with byteDiff := asked } := by
  cases asked with
  | true => rfl
  | false =>
    cases options
    cases h
    rfl

/-- The items of accepted options set them. -/
theorem acts_packageItems (h : Accepted options) :
    packageGrammar.acts {} (packageItems options) = .ok options := by
  simp only [packageItems, List.append_assoc]
  rw [Grammar.acts_append_of_ok (set_runAll options.runAll rfl),
    Grammar.acts_append_of_ok (set_byteDiff options.byteDiff rfl), List.cons_append,
    Grammar.acts_cons_of_ok (set_format h.format), List.cons_append,
    Grammar.acts_cons_of_ok (set_network h.network), List.nil_append]
  dsimp only
  rw [Grammar.acts_append_of_ok (set_mirrors h.mirrors),
    Grammar.acts_append_of_ok (set_allowHosts h.allowedHosts)]
  dsimp only
  rw [Grammar.acts_cons_of_ok set_rootfs,
    Grammar.acts_cons_of_ok (set_timeout h.timeout.1 h.timeout.2),
    Grammar.acts_cons_of_ok (set_workers h.workers)]
  dsimp only
  rw [Grammar.acts_cons_of_ok set_database, Grammar.acts_cons_of_ok set_cgroupRoot,
    Grammar.acts_cons_of_ok (set_rebuild h.buildRepetitions), Grammar.acts_nil]
  dsimp only
  -- the fields that no option sets are what they are from the start
  have hprivileged := h.privileged
  have hconfirm := h.confirmPrivileged
  have hroot := h.sessionRoot
  obtain ⟨⟨_, privileged, mirrors, rootfs, sessionRoot⟩, _, _, confirm, _, _, _, _⟩ := options
  dsimp only at hprivileged hconfirm hroot ⊢
  rw [hprivileged, hconfirm, hroot, List.nil_append, List.nil_append]

/-- `execell package` accepts exactly the options that `Accepted` describes: each of them can
be asked for, in front of any target that does not look like an option. An argument is any
text here; of those with a NUL the system hands over none. -/
theorem packageOptions_iff {target : List Text} (options : PackageArgs)
    (htarget : ∀ arg ∈ target.head?, isOption arg = false) :
    (∃ args, parsePackage (args ++ target) = .ok (options, target)) ↔ Accepted options := by
  constructor
  · rintro ⟨args, h⟩
    exact accepted_of_parse h
  · intro h
    refine ⟨(packageItems options).flatMap Item.args, ?_⟩
    have hread : packageGrammar.read {} ((packageItems options).flatMap Item.args ++ target) =
        .ok (options, target) :=
      Grammar.read_items (packageItems_fit options) (acts_packageItems h) htarget
    rw [parsePackage, hread]
    dsimp only
    rw [if_neg, if_neg]
    · rintro ⟨hoff, hmirrors⟩
      rw [h.mirrored.mpr hmirrors] at hoff
      exact absurd hoff (by decide)
    · rintro ⟨hmirror, hnil⟩
      exact h.mirrored.mp hmirror hnil

/-- Options that fetch from a mirror. -/
def mirrorArgs : PackageArgs :=
  { ({} : PackageArgs) with
    runAll := true, network := "mirror".toList, workers := 128, timeout := 90
    mirrors := ["https://mirror.example/repo".toList], allowedHosts := ["example".toList] }

theorem packageOptions_iff_mirror :
    ∃ args, parsePackage (args ++ ["tool.pkg.tar.zst".toList]) =
      .ok (mirrorArgs, ["tool.pkg.tar.zst".toList]) := by
  have hmirror : validMirror "https://mirror.example/repo".toList = true := by decide
  have hhost : AllowedHost "example".toList := by
    refine ⟨?_, ?_, ?_⟩ <;> decide
  refine (packageOptions_iff mirrorArgs (by decide)).mpr ?_
  refine ⟨⟨rfl, rfl, by decide, Or.inr rfl, ?_, ?_, ?_, ?_, ?_, rfl⟩, by decide⟩
  · exact List.forall_mem_singleton.mpr hmirror
  · exact List.forall_mem_singleton.mpr hhost
  · exact ⟨by decide, by decide⟩
  · exact ⟨by decide, by decide⟩
  · exact ⟨by decide, by decide⟩

end Complete

end ExeCell.Cli
