import BundlePackaging.Disk
import BundlePackaging.Policy
import BundlePackaging.Toml.Value

/-!
# Policies from tables

A policy can be written as a document, which is read into a table of values.  Each key of the table
sets one choice and a key that names none is refused; a choice that the table does not set has its
default.  The elements of `suffix_stripping` each name a dimension and may say more than is read of
them.

How a text is read into a table is not settled here: it is a function that the policy of a text is
given by.

## Main definitions

* `Policy.ofTable?` — the policy that the entries of a table set.
* `Policy.ofTextBy`, `Policy.ofFileBy` — the policy of a text or a file, or why there is none.
* `PolicyFault`, `PolicyFault.messages` — why there is none, in words.
-/

namespace BundlePackaging

/-! ### Parts of a document -/

namespace Toml.Value

/-- The elements of an array, each read by `read`. -/
def elements? {α : Type} (read : Value → Option α) : Value → Option (List α)
  | array vs => vs.mapM read
  | _ => none

/-- A truth value. -/
def boolean? : Value → Option Bool
  | boolean b => some b
  | _ => none

/-- A text. -/
def text? : Value → Option String
  | string s => some s
  | _ => none

/-- A choice among names: the name itself, or a table whose only key is the name, with nothing in
it. -/
def named? {α : Type} (ofName? : String → Option α) : Value → Option α
  | string s => ofName? s
  | table [(s, table [])] => ofName? s
  | table [(s, array [])] => ofName? s
  | _ => none

/-- The number of a resource. -/
def resourceId? : Value → Option ResourceId
  | integer (.ofNat n) => if n < UInt32.size then some ⟨UInt32.ofNat n⟩ else none
  | _ => none

/-- What is done with directory suffixes along a dimension.  Keys that say nothing about it are
allowed, as long as their values can be represented. -/
def suffixEntry? : Value → Option (Dimension × SuffixPolicy)
  | table entries => do
    let dimension ← (← entries.lookup "dimension").named? Dimension.ofConfigName?
    let others := entries.filter fun e => e.1 ≠ "dimension"
    if !entriesAreRepresentable others then none
    let enabled ←
      match others.lookup "enabled" with
      | none => some false
      | some v => v.boolean?
    let defaultSuffix ←
      match others.lookup "default_suffix" with
      | none => some none
      | some v => v.text?.map some
    return (dimension, ⟨enabled, defaultSuffix⟩)
  | _ => none

end Toml.Value

/-! ### Documents -/

namespace Policy

open Toml.Value

/-- Set the choice that a key of a document names. -/
def setKey? (p : Policy) (entry : String × Toml.Value) : Option Policy :=
  let v := entry.2
  match entry.1 with
  | "optimization_dimensions" =>
    (v.elements? (named? Dimension.ofConfigName?)).map fun l =>
      { p with dimensions := .ofList l }
  | "enable_native_library_compression_splitter" =>
    v.boolean?.map fun b => { p with splitNativeLibraryCompression := b }
  | "enable_dex_compression_splitter" => v.boolean?.map fun b => { p with splitDexCompression := b }
  | "installable_on_external_storage" =>
    v.boolean?.map fun b => { p with installableOnExternalStorage := b }
  | "abis_for_placeholder_libs" =>
    (v.elements? (named? Abi.ofName?)).map fun l => { p with placeholderAbis := .ofList l }
  | "master_pinned_resource_ids" =>
    (v.elements? resourceId?).map fun l => { p with pinnedIds := .ofList l }
  | "master_pinned_resource_names" =>
    (v.elements? text?).map fun l => { p with pinnedNames := .ofList l }
  | "base_manifest_reachable_resources" =>
    (v.elements? resourceId?).map fun l => { p with baseReachable := .ofList l }
  | "suffix_stripping" =>
    (v.elements? suffixEntry?).map fun l => { p with suffixPolicies := .ofList l }
  | "restrict_v3_signing_to_r_plus" => v.boolean?.map fun b => { p with restrictV3Signing := b }
  | _ => none

/-- The policy that the entries of a document set. -/
def ofTable? (entries : List (String × Toml.Value)) : Option Policy := entries.foldlM setKey? {}

end Policy

/-! ### Texts and files -/

/-- Why there is no policy. -/
inductive PolicyFault where
  /-- The text is no document that sets a policy. -/
  | malformedText
  /-- The file is no document that sets a policy. -/
  | malformedFile (name : String)
  /-- The file is not there or holds no text. -/
  | unreadableFile (name : String)
  deriving DecidableEq, Repr

/-- What is said of a fault, from the whole to the part. -/
def PolicyFault.messages : PolicyFault → List String
  | malformedText => ["Failed to parse generation configuration"]
  | malformedFile name => ["Invalid " ++ name, "Failed to parse generation configuration"]
  | unreadableFile name => ["Failed to read generation configuration " ++ name]

namespace Policy

/-- The policy that a text sets; `parse` reads a text into a table, unless it is no document. -/
def ofTextBy (parse : String → Option (List (String × Toml.Value))) (text : String) :
    Except PolicyFault Policy :=
  match (parse text).bind ofTable? with
  | some p => .ok p
  | none => .error .malformedText

/-- The policy that a file sets, with the same way of reading. -/
def ofFileBy (parse : String → Option (List (String × Toml.Value))) (disk : Disk) (name : String) :
    Except PolicyFault Policy :=
  match (disk.read name).toOption.bind fun bytes => String.fromUTF8? ⟨bytes.toArray⟩ with
  | none => .error (.unreadableFile name)
  | some text =>
    match (parse text).bind ofTable? with
    | some p => .ok p
    | none => .error (.malformedFile name)

end Policy
end BundlePackaging
