import Mathlib.Data.List.Basic
import Mathlib.Data.List.TakeWhile
import ExeCell.Lib.Search

/-!
# The host of a URI

The delimiters of RFC 3986. A scheme is a letter followed by letters, digits, `+`, `-`
and `.`. After the scheme and `://` the authority reaches to the next `/`, `?` or `#`. In
the authority the user information ends at the last `@`; what follows is the host, then
an optional `:` and the port. An address in brackets is a host as a whole.
-/

namespace Uri

abbrev Text := List Char

def isAlpha (c : Char) : Bool := ('a' ≤ c && c ≤ 'z') || ('A' ≤ c && c ≤ 'Z')

def isDigit (c : Char) : Bool := '0' ≤ c && c ≤ '9'

def isScheme : Text → Bool
  | [] => false
  | c :: rest =>
    isAlpha c && rest.all fun c => isAlpha c || isDigit c || c = '+' || c = '-' || c = '.'

/-- The authority at the start of the text behind `://`. -/
def authorityOf (rest : Text) : Text := rest.takeWhile fun c => c ≠ '/' && c ≠ '?' && c ≠ '#'

/-- What follows the user information. -/
def hostPort (authority : Text) : Text := (authority.reverse.takeWhile (· ≠ '@')).reverse

/-- The host of an authority. -/
def hostOf (authority : Text) : Text :=
  let rest := hostPort authority
  if rest.head? = some '[' then rest.takeWhile (· ≠ ']') ++ [']'] else rest.takeWhile (· ≠ ':')

/-- The scheme and the authority of a URI that has one. -/
def split (uri : Text) : Option (Text × Text) :=
  let scheme := uri.takeWhile (· ≠ ':')
  let rest := uri.dropWhile (· ≠ ':')
  if isScheme scheme ∧ ['/', '/'] <+: rest.drop 1 then
    some (scheme, authorityOf (rest.drop 3))
  else none

/-- The host of a URI that has an authority. -/
def host (uri : Text) : Option Text := (split uri).map fun parts => hostOf parts.2

/-! ## Lemmas -/

theorem not_mem_of_isScheme {scheme : Text} (h : isScheme scheme) : ':' ∉ scheme := by
  intro hmem
  cases scheme with
  | nil => cases hmem
  | cons c rest =>
    rw [isScheme, Bool.and_eq_true, List.all_eq_true] at h
    rcases List.mem_cons.mp hmem with heq | hrest
    · rw [← heq] at h
      exact absurd h.1 (by decide)
    · exact absurd (h.2 ':' hrest) (by decide)

/-- A scheme name followed by `://` starts a URI with an authority. -/
theorem split_of_isScheme {scheme rest : Text} (h : isScheme scheme) :
    split (scheme ++ ':' :: '/' :: '/' :: rest) = some (scheme, authorityOf rest) := by
  have hcolon := not_mem_of_isScheme h
  rw [split, Search.takeWhile_ne_append hcolon (by simp),
    Search.dropWhile_ne_append hcolon (by simp)]
  exact if_pos ⟨h, by simp⟩

/-- A URI with an authority is a scheme name, `://`, and the rest. -/
theorem split_eq_some {uri scheme authority : Text} (h : split uri = some (scheme, authority)) :
    isScheme scheme ∧ ∃ rest, uri = scheme ++ ':' :: '/' :: '/' :: rest := by
  rw [split] at h
  split at h
  · rename_i hcond
    obtain ⟨hscheme, rest, hrest⟩ := hcond
    cases h
    refine ⟨hscheme, rest, ?_⟩
    have huri := List.takeWhile_append_dropWhile (p := (· ≠ ':')) (l := uri)
    cases hdrop : uri.dropWhile (· ≠ ':') with
    | nil =>
      rw [hdrop] at hrest
      simp at hrest
    | cons c tail =>
      have hc : c = ':' := by
        have hhead := List.head?_dropWhile_not (· ≠ ':') uri
        rw [hdrop] at hhead
        simpa using hhead
      rw [hdrop] at hrest huri
      have htail : tail = '/' :: '/' :: rest := by simpa using hrest.symm
      rw [hc, htail] at huri
      exact huri.symm
  · cases h

theorem hostPort_eq_self {authority : Text} (h : '@' ∉ authority) :
    hostPort authority = authority := by
  rw [hostPort, List.takeWhile_eq_self_iff.mpr, List.reverse_reverse]
  intro c hc
  simp only [decide_eq_true_eq]
  rintro rfl
  exact h (List.mem_reverse.mp hc)

/-- Without user information and brackets the host reaches to the port. -/
theorem hostOf_of_not_mem {authority : Text} (h : '@' ∉ authority)
    (hbracket : authority.head? ≠ some '[') :
    hostOf authority = authority.takeWhile (· ≠ ':') := by
  rw [hostOf, hostPort_eq_self h]
  exact if_neg hbracket

end Uri
