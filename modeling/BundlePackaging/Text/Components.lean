/-!
# Components of a path

A path, written as a text, is cut into components at its slashes.

## Main definitions

* `pathComponents` — the components of a text.

## Main results

* `intercalate_pathComponents` — the components of a text, joined by slashes, are the text again.
-/

namespace BundlePackaging

/-- The pieces of a text between its slashes, of which there is always at least one. -/
def pathComponents : List Char → List (List Char)
  | [] => [[]]
  | c :: cs =>
    if c = '/' then [] :: pathComponents cs
    else
      match pathComponents cs with
      | [] => [[c]]
      | w :: ws => (c :: w) :: ws

theorem pathComponents_ne_nil (cs : List Char) : pathComponents cs ≠ [] := by
  cases cs with
  | nil => simp [pathComponents]
  | cons c cs =>
    rw [pathComponents]
    split
    · simp
    · split <;> simp

theorem intercalate_pathComponents (cs : List Char) :
    ['/'].intercalate (pathComponents cs) = cs := by
  induction cs with
  | nil => rfl
  | cons c cs ih =>
    rw [pathComponents]
    cases h : pathComponents cs with
    | nil => exact absurd h (pathComponents_ne_nil cs)
    | cons w ws =>
      rw [h] at ih
      split
      · next hc => rw [List.intercalate_cons_cons, ih, hc]; rfl
      · -- the character joins the first component, whether or not others follow it
        cases ws with
        | nil => simpa using ih
        | cons v vs =>
          rw [List.intercalate_cons_cons] at ih ⊢
          rw [← ih]
          rfl

end BundlePackaging
