import BundlePackaging.Event
import BundlePackaging.Policy

/-!
# Variant selection

Along a dimension whose directory suffixes are stripped, one variant is chosen for all packages.
An entry of the chosen variant loses its suffix and its targeting along the dimension, an entry of
any other variant is dropped, and an entry without targeting along such a dimension is the fallback:
it stays unless a chosen entry ends up at its path.

## Main definitions

* `Candidate` — an entry with the devices it is for.
* `VariantChoice`, `Policy.variantChoices` — the choices that a policy makes.
* `Candidate.resolve` — what the choices make of one candidate.
* `selectVariants` — the candidates that remain.
* `selectionEvents` — what is reported of those that do not.
-/

namespace BundlePackaging

/-- An entry with the devices it is for. -/
structure Candidate where
  /-- The entry. -/
  entry : Entry
  /-- The devices. -/
  targeting : Targeting
  deriving DecidableEq, Inhabited

/-- The choice of one variant along a dimension. -/
structure VariantChoice where
  /-- The dimension. -/
  dimension : Dimension
  /-- The key of its directory suffixes. -/
  key : String
  /-- The suffix value of the chosen variant; without one the fallback is chosen. -/
  chosen : Option String
  deriving DecidableEq, Inhabited

/-- The choices that a policy makes, in the order of the dimensions.  A dimension without directory
suffixes has no variants to choose from. -/
def Policy.variantChoices (p : Policy) : List VariantChoice :=
  Dimension.all.filterMap fun d => do
    let rule ← p.suffixPolicy? d
    let key ← d.suffixKey?
    if rule.enabled then some ⟨d, key, rule.defaultSuffix⟩ else none

/-- What becomes of a candidate. -/
inductive Resolution where
  /-- Its value is not the chosen one.  The path is without the suffixes stripped by then. -/
  | dropped (path : EntryPath) (value : Value)
  /-- It stays, as an entry of a chosen variant or as one without variants. -/
  | kept (candidate : Candidate) (isVariant : Bool)
  deriving DecidableEq

namespace Candidate

/-- The candidate without its suffix and its targeting along the dimension of a choice. -/
def strip (c : Candidate) (r : VariantChoice) : Candidate :=
  ⟨c.entry.moveTo (c.entry.path.withoutSuffix r.key), c.targeting.erase r.dimension⟩

/-- Follow the choices one by one; `isVariant` says whether an earlier one has applied. -/
def resolveFrom (c : Candidate) (isVariant : Bool) : List VariantChoice → Resolution
  | [] => .kept c isVariant
  | r :: rs =>
    match c.targeting.get? r.dimension with
    -- the choice is not about this candidate
    | none => c.resolveFrom isVariant rs
    | some v =>
      if r.chosen = some v.name then (c.strip r).resolveFrom true rs
      else .dropped c.entry.path v

/-- What the choices make of a candidate. -/
def resolve (choices : List VariantChoice) (c : Candidate) : Resolution :=
  c.resolveFrom false choices

end Candidate

/-- Whether a candidate stays, given the paths at which entries of chosen variants end up. -/
def Resolution.survivor? (variantPaths : List EntryPath) : Resolution → Option Candidate
  | dropped .. => none
  | kept c isVariant =>
    if !isVariant && c.entry.path ∈ variantPaths then none else some c

/-- The path at which an entry of a chosen variant ends up. -/
def Resolution.variantPath? : Resolution → Option EntryPath
  | kept c true => some c.entry.path
  | _ => none

/-- The candidates that remain, in their order. -/
def selectVariants (choices : List VariantChoice) (candidates : List Candidate) : List Candidate :=
  let resolutions := candidates.map (Candidate.resolve choices)
  resolutions.filterMap (Resolution.survivor? (resolutions.filterMap Resolution.variantPath?))

/-- What is reported of the candidates that do not remain: first the variants that are not chosen,
then the fallbacks that are replaced. -/
def selectionEvents (module : String) (choices : List VariantChoice)
    (candidates : List Candidate) : List Event :=
  let resolutions := candidates.map (Candidate.resolve choices)
  let variantPaths := resolutions.filterMap Resolution.variantPath?
  let dropped := resolutions.filterMap fun
    | .dropped path value => some (Event.variantDropped module path value)
    | .kept .. => none
  let replaced := resolutions.filterMap fun
    | .kept c false =>
      if c.entry.path ∈ variantPaths then some (Event.fallbackReplaced module c.entry.path)
      else none
    | _ => none
  dropped ++ replaced

end BundlePackaging
