import ExeCell.Package.ArchivePaths

/-!
# NUL bytes in the validated texts

`validate_path` and `validate_link_target` hand a counted string on as a C string. The
checks behind them look for a NUL byte, but they see the string only up to the first one:
`validates_iff` says for which strings this makes no difference.
-/

namespace ExeCell.Package.ArchiveAdapter

/-- The part of a text that a C string made of it has. -/
def beforeNul (value : Text) : Text := value.takeWhile (· ≠ '\x00')

/-- Both validators reject the text if it has a NUL byte. What they accept they give back: the
path without every `./` at its start, and the target as it is. -/
structure Validates (value : Text) (limit : Nat) : Prop where
  nulInPath : '\x00' ∈ value → ∀ result, validatePath value limit ≠ .ok result
  nulInTarget : '\x00' ∈ value → ∀ result, validateLinkTarget value limit ≠ .ok result
  path : ∀ result, validatePath value limit = .ok result → Stripped value result
  target : ∀ result, validateLinkTarget value limit = .ok result → result = value

/-! ## What the validators accept -/

section Accepted

variable {value result : Text} {limit : Nat}

theorem validatePath_ok_iff :
    validatePath value limit = .ok result ↔
      Canonical result limit ∧ Stripped (beforeNul value) result := by
  rw [validatePath]
  constructor
  · intro h
    obtain ⟨hcanonical, text, htext, hstripped⟩ := canonical_of_safePath h
    obtain rfl := Option.some.inj htext
    exact ⟨hcanonical, hstripped⟩
  · rintro ⟨hcanonical, hstripped⟩
    exact safePath_of_canonical hstripped hcanonical

theorem validateLinkTarget_ok_iff :
    validateLinkTarget value limit = .ok result ↔
      LinkTarget (beforeNul value) limit ∧ result = beforeNul value := safeLink_ok_iff

theorem beforeNul_eq_self (h : '\x00' ∉ value) : beforeNul value = value := chars_ofText h

end Accepted

/-- For every text and every limit: the validators reject a NUL byte and give accepted texts
back if and only if there is no NUL byte, or what stands before the first one is neither a
path that is canonical without every `./` at its start nor a link target. -/
theorem validates_iff (value : Text) (limit : Nat) :
    Validates value limit ↔
      '\x00' ∉ value ∨
        ¬ Canonical (stripDotSlash (beforeNul value)) limit ∧
          ¬ LinkTarget (beforeNul value) limit := by
  constructor
  · intro h
    by_cases hnul : '\x00' ∈ value
    · refine Or.inr ⟨?_, ?_⟩
      · intro hcanonical
        apply h.nulInPath hnul
        exact validatePath_ok_iff.mpr ⟨hcanonical, stripDotSlash_stripped _⟩
      · intro htarget
        apply h.nulInTarget hnul
        exact validateLinkTarget_ok_iff.mpr ⟨htarget, rfl⟩
    · exact Or.inl hnul
  · rintro (hfree | ⟨hpath, htarget⟩)
    · have hwhole : beforeNul value = value := beforeNul_eq_self hfree
      refine ⟨fun hnul => absurd hnul hfree, fun hnul => absurd hnul hfree, ?_, ?_⟩
      · intro result h
        rw [← hwhole]
        exact (validatePath_ok_iff.mp h).2
      · intro result h
        rw [(validateLinkTarget_ok_iff.mp h).2, hwhole]
    · have hnoPath : ∀ result, validatePath value limit ≠ .ok result := by
        intro result h
        obtain ⟨hcanonical, hstripped⟩ := validatePath_ok_iff.mp h
        rw [stripDotSlash_of_stripped hstripped] at hpath
        exact hpath hcanonical
      have hnoTarget : ∀ result, validateLinkTarget value limit ≠ .ok result := by
        intro result h
        exact htarget (validateLinkTarget_ok_iff.mp h).1
      refine ⟨fun _ => hnoPath, fun _ => hnoTarget, ?_, ?_⟩
      · intro result h
        exact absurd h (hnoPath result)
      · intro result h
        exact absurd h (hnoTarget result)

/-- Behind the NUL byte nothing is looked at. -/
theorem not_validates_nul :
    validatePath "a\x00/../b".toList = .ok "a".toList ∧
      validateLinkTarget "a\x00/../b".toList = .ok "a".toList ∧
      ¬ Validates "a\x00/../b".toList 4096 := by
  refine ⟨by decide, by decide, ?_⟩
  intro h
  exact h.nulInPath (by decide) "a".toList (by decide)

end ExeCell.Package.ArchiveAdapter
