import ExeCell.Lib.LexicalPath
import ExeCell.Package.Archive

/-!
# Paths of archive entries

`safe_path` walks the components of a path with `find` and `substr`. `componentsPass_iff`
relates that loop to the components as a list, and `safePath_canonical_iff` says that the
accepted paths are the canonical relative ones, which stay beneath any root.
-/

namespace ExeCell.Package.ArchiveAdapter

open LexicalPath (Plain StrictlyBeneath)

/-! ## The loops -/

/-- The loop accepts a text exactly when none of its components is rejected. -/
theorem componentsPass_iff {rejects : Text → Bool} {fuel : Nat} {rest : Text}
    (h : rest.length < fuel) :
    componentsPass rejects fuel rest ↔ ∀ c ∈ rest.splitOn '/', rejects c = false := by
  induction fuel generalizing rest with
  | zero => omega
  | succ fuel ih =>
    have hfirst : '/' ∉ rest.takeWhile (· ≠ '/') := by
      intro hmem
      simpa using List.mem_takeWhile_imp hmem
    have hrest := List.takeWhile_append_dropWhile (p := (· ≠ '/')) (l := rest)
    rw [componentsPass.eq_def]
    dsimp only
    cases hdrop : rest.dropWhile (· ≠ '/') with
    | nil =>
      rw [hdrop, List.append_nil] at hrest
      rw [hrest] at hfirst
      rw [hrest, List.splitOn_eq_singleton hfirst, List.forall_mem_singleton]
      cases rejects rest <;> simp
    | cons c next =>
      have hc : c = '/' := by
        have hhead := List.head?_dropWhile_not (· ≠ '/') rest
        rw [hdrop] at hhead
        simpa using hhead
      rw [hdrop, hc] at hrest
      have hsplit : rest.splitOn '/' = rest.takeWhile (· ≠ '/') :: next.splitOn '/' := by
        nth_rewrite 1 [← hrest]
        exact List.splitOn_append_cons_self_of_not_mem hfirst next
      have hlength : next.length < fuel := by
        have := congrArg List.length hrest
        rw [List.length_append, List.length_cons] at this
        omega
      rw [hsplit, List.forall_mem_cons, ← ih hlength]
      cases rejects (rest.takeWhile (· ≠ '/')) <;> simp

/-- `path` is `raw` with every `./` at its start removed. -/
def Stripped (raw path : Text) : Prop :=
  (∃ n, raw = (List.replicate n ['.', '/']).flatten ++ path) ∧ ¬ ['.', '/'] <+: path

theorem stripDotSlash_eq_self {path : Text} (h : ¬ ['.', '/'] <+: path) :
    stripDotSlash path = path := by
  rw [stripDotSlash.eq_def]
  split
  · exact absurd ⟨_, rfl⟩ h
  · rfl

theorem stripDotSlash_of_stripped {raw path : Text} (h : Stripped raw path) :
    stripDotSlash raw = path := by
  obtain ⟨⟨n, rfl⟩, hpath⟩ := h
  induction n with
  | zero => exact stripDotSlash_eq_self hpath
  | succ n ih => exact ih

theorem stripDotSlash_stripped (raw : Text) : Stripped raw (stripDotSlash raw) := by
  fun_induction stripDotSlash raw with
  | case1 rest ih =>
    obtain ⟨⟨n, hn⟩, hpath⟩ := ih
    refine ⟨⟨n + 1, ?_⟩, hpath⟩
    rw [List.replicate_succ, List.flatten_cons, List.append_assoc, ← hn]
    rfl
  | case2 path hpath =>
    refine ⟨⟨0, rfl⟩, ?_⟩
    rintro ⟨rest, rfl⟩
    exact hpath rest rfl

/-! ## Accepted paths -/

/-- A canonical relative path of at most `limit` bytes. -/
structure Canonical (path : Text) (limit : Nat) : Prop where
  nonempty : path ≠ []
  short : path.length ≤ limit
  relative : path.head? ≠ some '/'
  components : ∀ component ∈ path.splitOn '/',
    component ≠ [] ∧ component ≠ ['.'] ∧ component ≠ ['.', '.']

instance (path : Text) (limit : Nat) : Decidable (Canonical path limit) :=
  decidable_of_iff
    (path ≠ [] ∧ path.length ≤ limit ∧ path.head? ≠ some '/' ∧
      ∀ component ∈ path.splitOn '/',
        component ≠ [] ∧ component ≠ ['.'] ∧ component ≠ ['.', '.'])
    ⟨fun ⟨hne, hshort, hrelative, hparts⟩ => ⟨hne, hshort, hrelative, hparts⟩,
      fun ⟨hne, hshort, hrelative, hparts⟩ => ⟨hne, hshort, hrelative, hparts⟩⟩

theorem isUnsafe_eq_false {component : Text} : isUnsafe component = false ↔ Plain component := by
  simp only [isUnsafe, isDots, Bool.or_eq_false_iff, decide_eq_false_iff_not, Plain,
    LexicalPath.dotdot, ne_eq, and_assoc]

/-- `safe_path` returns the stripped path if it is canonical, and nothing otherwise. -/
theorem safePath_eq {raw : CString} {path : Text} {limit : Nat} (h : Stripped raw.chars path) :
    (Canonical path limit ∧ safePath (some raw) limit = .ok path) ∨
      (¬ Canonical path limit ∧ safePath (some raw) limit = .error "unsafe archive path".toList) := by
  have hnul : '\x00' ∉ path := by
    obtain ⟨⟨n, hn⟩, -⟩ := h
    intro hmem
    exact raw.nulFree (by rw [hn]; exact List.mem_append_right _ hmem)
  have hpass : componentsPass isUnsafe (path.length + 1) path ↔
      ∀ c ∈ path.splitOn '/', isUnsafe c = false := componentsPass_iff (Nat.lt_succ_self _)
  simp only [safePath, stripDotSlash_of_stripped h]
  by_cases hform : path = [] ∨ path.length > limit ∨ path.head? = some '/' ∨ '\x00' ∈ path
  · rw [if_pos hform]
    refine Or.inr ⟨fun hcanonical => ?_, rfl⟩
    rcases hform with hnil | hlong | hslash | hmem
    · exact hcanonical.nonempty hnil
    · exact absurd hcanonical.short (by omega)
    · exact hcanonical.relative hslash
    · exact hnul hmem
  · rw [if_neg hform]
    simp only [not_or] at hform
    by_cases hcomponents : componentsPass isUnsafe (path.length + 1) path
    · rw [if_pos hcomponents]
      refine Or.inl ⟨⟨hform.1, by omega, hform.2.2.1, fun component hmem => ?_⟩, rfl⟩
      exact isUnsafe_eq_false.mp (hpass.mp hcomponents component hmem)
    · rw [if_neg hcomponents]
      refine Or.inr ⟨fun hcanonical => hcomponents (hpass.mpr fun component hmem => ?_), rfl⟩
      exact isUnsafe_eq_false.mpr (hcanonical.components component hmem)

theorem safePath_of_canonical {raw : CString} {path : Text} {limit : Nat}
    (h : Stripped raw.chars path) (hcanonical : Canonical path limit) :
    safePath (some raw) limit = .ok path := by
  rcases safePath_eq h with ⟨_, hok⟩ | ⟨hnot, _⟩
  · exact hok
  · exact absurd hcanonical hnot

theorem canonical_of_safePath {raw : Option CString} {path : Text} {limit : Nat}
    (h : safePath raw limit = .ok path) :
    Canonical path limit ∧ ∃ text, raw = some text ∧ Stripped text.chars path := by
  cases raw with
  | none => cases h
  | some raw =>
    have hstripped := stripDotSlash_stripped raw.chars
    obtain ⟨hcanonical, hok⟩ | ⟨_, herror⟩ := @safePath_eq raw _ limit hstripped
    · rw [hok] at h
      cases h
      exact ⟨hcanonical, raw, rfl, hstripped⟩
    · rw [herror] at h
      cases h

/-- A canonical path is what is left of itself. -/
theorem Canonical.stripped {path : Text} {limit : Nat} (h : Canonical path limit) :
    Stripped path path := by
  refine ⟨⟨0, rfl⟩, ?_⟩
  rintro ⟨rest, rfl⟩
  have hsplit : (['.', '/'] ++ rest).splitOn '/' = ['.'] :: rest.splitOn '/' :=
    List.splitOn_append_cons_self_of_not_mem (show '/' ∉ ['.'] by decide) rest
  exact (h.components ['.'] (by rw [hsplit]; exact List.mem_cons_self ..)).2.1 rfl

/-- The names in a text, without what stands for the directory itself. -/
def namesOf (text : Text) : List Text := (text.splitOn '/').filter fun c => c ≠ [] ∧ c ≠ ['.']

theorem Canonical.namesOf_eq {path : Text} {limit : Nat} (h : Canonical path limit) :
    namesOf path = path.splitOn '/' := by
  apply List.filter_eq_self.mpr
  intro c hc
  have hplain := h.components c hc
  exact decide_eq_true ⟨hplain.1, hplain.2.1⟩

/-- Different canonical paths have different names. -/
theorem Canonical.namesOf_inj {path path' : Text} {limit : Nat} (h : Canonical path limit)
    (h' : Canonical path' limit) : namesOf path = namesOf path' ↔ path = path' := by
  rw [h.namesOf_eq, h'.namesOf_eq]
  constructor
  · intro hsplit
    rw [← @List.intercalate_splitOn _ path _ _ '/', hsplit, List.intercalate_splitOn]
  · rintro rfl
    rfl

theorem chars_ofText {text : Text} (h : '\x00' ∉ text) : (CString.ofText text).chars = text := by
  apply List.takeWhile_eq_self_iff.mpr
  intro c hc
  simp only [decide_eq_true_eq]
  rintro rfl
  exact h hc

/-- A path that `safe_path` has returned is returned again. -/
theorem safePath_of_safePath {raw : Option CString} {path : Text} {limit : Nat}
    (h : safePath raw limit = .ok path) : safePath (some (CString.ofText path)) limit = .ok path := by
  obtain ⟨hcanonical, text, _, ⟨n, hn⟩, _⟩ := canonical_of_safePath h
  have hnul : '\x00' ∉ path := by
    intro hmem
    exact text.nulFree (by rw [hn]; exact List.mem_append_right _ hmem)
  apply safePath_of_canonical
  · rw [chars_ofText hnul]
    exact hcanonical.stripped
  · exact hcanonical

/-- A link target of at most `limit` bytes that is relative and never goes up. -/
structure LinkTarget (target : Text) (limit : Nat) : Prop where
  nonempty : target ≠ []
  short : target.length ≤ limit
  relative : target.head? ≠ some '/'
  components : ∀ component ∈ target.splitOn '/', component ≠ LexicalPath.dotdot

/-- `safe_link` accepts the link targets, and gives them back. -/
theorem safeLink_ok_iff {raw : CString} {target : Text} {limit : Nat} :
    safeLink (some raw) limit = .ok target ↔ LinkTarget raw.chars limit ∧ target = raw.chars := by
  have hpass : componentsPass isDots (raw.chars.length + 1) raw.chars ↔
      ∀ c ∈ raw.chars.splitOn '/', isDots c = false := componentsPass_iff (Nat.lt_succ_self _)
  rw [safeLink]
  by_cases hform : raw.chars = [] ∨ raw.chars.length > limit ∨ raw.chars.head? = some '/' ∨
      '\x00' ∈ raw.chars
  · rw [if_pos hform]
    refine iff_of_false nofun ?_
    rintro ⟨htarget, -⟩
    rcases hform with hnil | hlong | hslash | hnul
    · exact htarget.nonempty hnil
    · have hshort := htarget.short
      omega
    · exact htarget.relative hslash
    · exact raw.nulFree hnul
  · rw [if_neg hform]
    simp only [not_or] at hform
    by_cases hcomponents : componentsPass isDots (raw.chars.length + 1) raw.chars
    · rw [if_pos hcomponents]
      have htarget : LinkTarget raw.chars limit := by
        refine ⟨hform.1, by omega, hform.2.2.1, ?_⟩
        intro component hmem
        exact of_decide_eq_false (hpass.mp hcomponents component hmem)
      constructor
      · intro h
        exact ⟨htarget, (Except.ok.inj h).symm⟩
      · rintro ⟨-, rfl⟩
        rfl
    · rw [if_neg hcomponents]
      refine iff_of_false nofun ?_
      rintro ⟨htarget, -⟩
      refine hcomponents (hpass.mpr ?_)
      intro component hmem
      exact decide_eq_false (htarget.components component hmem)

/-- An accepted link target is relative and never goes up. -/
theorem safeLink_ok {raw : Option CString} {target : Text} {limit : Nat}
    (h : safeLink raw limit = .ok target) :
    LexicalPath.isAbsolute target = false ∧ ∀ c ∈ target.splitOn '/', c ≠ LexicalPath.dotdot := by
  cases raw with
  | none => cases h
  | some raw =>
    obtain ⟨htarget, rfl⟩ := safeLink_ok_iff.mp h
    exact ⟨by simpa [LexicalPath.isAbsolute] using htarget.relative, htarget.components⟩

/-- Let `path` be a C string with every `./` at its start removed. `safe_path` accepts the
string if and only if `path` is canonical; it then returns `path`, which lies strictly
beneath every root that it is joined to, and returns it once more for `path` itself. -/
theorem safePath_canonical_iff (raw : CString) (limit : Nat) (path : Text)
    (h : Stripped raw.chars path) :
    ((∃ result, safePath (some raw) limit = .ok result) ↔ Canonical path limit) ∧
    ∀ result, safePath (some raw) limit = .ok result →
      result = path ∧ (∀ root, StrictlyBeneath root (LexicalPath.append root path)) ∧
        ∀ again : CString, again.chars = path → safePath (some again) limit = .ok path := by
  obtain ⟨hcanonical, hok⟩ | ⟨hnot, herror⟩ := @safePath_eq raw path limit h
  · refine ⟨⟨fun _ => hcanonical, fun _ => ⟨path, hok⟩⟩, ?_⟩
    intro result hresult
    rw [hok] at hresult
    refine ⟨(Except.ok.inj hresult).symm, ?_, ?_⟩
    · exact fun root => LexicalPath.strictlyBeneath_append root hcanonical.components
    · rintro again rfl
      exact safePath_of_canonical hcanonical.stripped hcanonical
  · rw [herror]
    refine ⟨iff_of_false ?_ hnot, ?_⟩
    · rintro ⟨result, hresult⟩
      cases hresult
    · intro result hresult
      cases hresult

theorem safePath_canonical_tool :
    Stripped "././usr/bin/tool".toList "usr/bin/tool".toList ∧
    safePath (some (CString.ofText "././usr/bin/tool".toList)) 4096 = .ok "usr/bin/tool".toList ∧
    StrictlyBeneath "/srv/root".toList
      (LexicalPath.append "/srv/root".toList "usr/bin/tool".toList) := by
  have hstripped : Stripped (CString.ofText "././usr/bin/tool".toList).chars
      "usr/bin/tool".toList := ⟨⟨2, by decide⟩, by decide⟩
  have hok : safePath (some (CString.ofText "././usr/bin/tool".toList)) 4096 =
      .ok "usr/bin/tool".toList := by rfl
  have hpath := (safePath_canonical_iff _ 4096 _ hstripped).2 _ hok
  exact ⟨⟨⟨2, by decide⟩, by decide⟩, hok, hpath.2.1 _⟩

end ExeCell.Package.ArchiveAdapter
