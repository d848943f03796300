import BundlePackaging.Policy.Document

/-!
# The keys of a configuration document

A document says nothing under a key that is no choice: such a document is refused.  In the elements
of `suffix_stripping` it is otherwise, since of these only three keys are looked up.  What stands
under other keys there has to be representable, and is then ignored: the policy is that of the
document without it.  So a misspelled key of an element goes unnoticed.

How a text is read into a table does not matter here, so it is left open.  The proof follows the
document from the inside out.  At each level, reading is the same as reading without the ignored
entries, provided that these are representable.

## Main definitions

* `documentKeys`, `suffixEntryKeys` — the keys that are read of a document, and of an element of
  `suffix_stripping`.
* `ignoredEntries`, `readEntries` — what a document has under other keys of such elements, and the
  document without it.

## Main results

* `Toml.Value.suffixEntry?_eq`, `Policy.setKey?_eq`, `Policy.ofTable?_eq` — reading an element, an
  entry and a document, without the ignored entries.
* `Policy.mem_documentKeys_of_setKey?` — no other key is accepted.
* **`Policy.ofText_eq_ok_iff`** — which documents are accepted, and the policy of each.
* `Policy.not_forall_unknown_keys_refused` — unknown keys are not always refused.
-/

namespace BundlePackaging

variable {α β : Type}

/-! ### Keys -/

/-- The keys of a document. -/
def documentKeys : List String :=
  ["optimization_dimensions", "enable_native_library_compression_splitter",
    "enable_dex_compression_splitter", "installable_on_external_storage",
    "abis_for_placeholder_libs", "master_pinned_resource_ids", "master_pinned_resource_names",
    "base_manifest_reachable_resources", "suffix_stripping", "restrict_v3_signing_to_r_plus"]

/-- The keys of an element of `suffix_stripping`. -/
def suffixEntryKeys : List String := ["dimension", "enabled", "default_suffix"]

/-! ### Ignored entries -/

namespace Toml.Value

/-- The entries of a table under keys that are not read of an element of `suffix_stripping`. -/
def ignoredEntries : Value → List (String × Value)
  | table entries => entries.filter (·.1 ∉ suffixEntryKeys)
  | _ => []

/-- The table without the ignored entries. -/
def withoutIgnored : Value → Value
  | table entries => table (entries.filter (·.1 ∈ suffixEntryKeys))
  | v => v

/-- What the elements of an array contribute to a list. -/
def flatMapElements (f : Value → List α) : Value → List α
  | array vs => vs.flatMap f
  | _ => []

/-- An array with its elements changed one by one. -/
def mapElements (f : Value → Value) : Value → Value
  | array vs => array (vs.map f)
  | v => v

end Toml.Value

/-- The entries that are ignored of an entry of a document. -/
def ignoredOfEntry (e : String × Toml.Value) : List (String × Toml.Value) :=
  if e.1 = "suffix_stripping" then e.2.flatMapElements (·.ignoredEntries) else []

/-- An entry of a document without what is ignored of it. -/
def readOfEntry (e : String × Toml.Value) : String × Toml.Value :=
  if e.1 = "suffix_stripping" then (e.1, e.2.mapElements (·.withoutIgnored)) else e

/-- The entries in the elements of `suffix_stripping` under keys that are not read of them. -/
def ignoredEntries (entries : List (String × Toml.Value)) : List (String × Toml.Value) :=
  entries.flatMap ignoredOfEntry

/-- The document without the ignored entries. -/
def readEntries (entries : List (String × Toml.Value)) : List (String × Toml.Value) :=
  entries.map readOfEntry

/-! ### Representable entries -/

namespace Toml

theorem entriesAreRepresentable_eq_all (es : List (String × Value)) :
    entriesAreRepresentable es = es.all (·.2.isRepresentable) := by
  induction es with
  | nil => rfl
  | cons e es ih => rw [entriesAreRepresentable, ih, List.all_cons]

theorem entriesAreRepresentable_append (es fs : List (String × Value)) :
    entriesAreRepresentable (es ++ fs) =
      (entriesAreRepresentable es && entriesAreRepresentable fs) := by
  simp only [entriesAreRepresentable_eq_all, List.all_append]

/-- Entries are representable if those that are picked out and the others are. -/
theorem entriesAreRepresentable_filter (p : String × Value → Bool) (es : List (String × Value)) :
    entriesAreRepresentable es =
      (entriesAreRepresentable (es.filter fun e => !p e) &&
        entriesAreRepresentable (es.filter p)) := by
  induction es with
  | nil => rfl
  | cons e es ih =>
    rw [entriesAreRepresentable, ih, List.filter_cons, List.filter_cons]
    cases p e with
    | true => simp [entriesAreRepresentable, Bool.and_left_comm]
    | false => simp [entriesAreRepresentable, Bool.and_assoc]

end Toml

/-! ### From the inside out -/

theorem lookup_filter (p : String → Bool) {k : String} (h : p k) (l : List (String × β)) :
    (l.filter fun e => p e.1).lookup k = l.lookup k := by
  induction l with
  | nil => rfl
  | cons e l ih =>
    obtain ⟨x, b⟩ := e
    by_cases hx : k = x
    · subst hx
      simp [h]
    · rw [List.filter_cons]
      have hne : (k == x) = false := beq_eq_false_iff_ne.2 hx
      cases hp : p x with
      | true => simpa [List.lookup_cons, hne, hp] using ih
      | false => simpa [List.lookup_cons, hne, hp] using ih

/-- A list is read member by member as what is left of it, if each member is, as long as what is
left out satisfies a condition that is checked member by member. -/
theorem mapM_eq_ite {γ : Type} {read : α → Option β} {left : α → α} {out : α → List γ}
    {ok : List γ → Bool} (hnil : ok [] = true) (happ : ∀ x y, ok (x ++ y) = (ok x && ok y))
    (h : ∀ a, read a = if ok (out a) then read (left a) else none) (l : List α) :
    l.mapM read = if ok (l.flatMap out) then (l.map left).mapM read else none := by
  induction l with
  | nil => simp [hnil]
  | cons a l ih =>
    rw [List.mapM_cons, h a, ih, List.flatMap_cons, happ, List.map_cons, List.mapM_cons]
    cases ok (out a) with
    | false => simp
    | true =>
      cases ok (l.flatMap out) with
      | false => cases read (left a) <;> simp
      | true => simp

namespace Toml.Value

/-- An element of `suffix_stripping` is read as it is without the ignored entries, provided that
these are representable. -/
theorem suffixEntry?_eq (v : Value) :
    v.suffixEntry? =
      if entriesAreRepresentable v.ignoredEntries then v.withoutIgnored.suffixEntry? else none := by
  cases v with
  | table entries =>
    have hdimension : (entries.filter (·.1 ∈ suffixEntryKeys)).lookup "dimension" =
        entries.lookup "dimension" := lookup_filter (· ∈ suffixEntryKeys) (by decide) entries
    -- the dimension is looked up before its entry is set aside, and the other two keys afterwards
    let others := entries.filter fun e => e.1 ≠ "dimension"
    have hothers : (entries.filter (·.1 ∈ suffixEntryKeys)).filter (fun e => e.1 ≠ "dimension") =
        others.filter (·.1 ∈ suffixEntryKeys) := by
      simp only [others, List.filter_filter, Bool.and_comm]
    have hignored : others.filter (·.1 ∉ suffixEntryKeys) =
        entries.filter (·.1 ∉ suffixEntryKeys) := by
      rw [List.filter_filter]
      refine List.filter_congr fun e _ => ?_
      by_cases he : e.1 = "dimension"
      · simp [he, suffixEntryKeys]
      · simp [he]
    have hrepresentable := entriesAreRepresentable_filter (·.1 ∈ suffixEntryKeys) others
    simp only [← decide_not, hignored] at hrepresentable
    have henabled := lookup_filter (k := "enabled") (· ∈ suffixEntryKeys) (by decide) others
    have hdefault := lookup_filter (k := "default_suffix") (· ∈ suffixEntryKeys) (by decide) others
    unfold suffixEntry?
    simp only [ignoredEntries, withoutIgnored, hdimension, hothers, henabled, hdefault]
    rw [show (entries.filter fun e => e.1 ≠ "dimension") = others from rfl, hrepresentable]
    cases entriesAreRepresentable (entries.filter (·.1 ∉ suffixEntryKeys)) with
    | true => simp
    | false => simp
  | string | integer | decimal | boolean | time | array => rfl

theorem elements?_suffixEntry?_eq (v : Value) :
    v.elements? suffixEntry? =
      if entriesAreRepresentable (v.flatMapElements ignoredEntries) then
        (v.mapElements withoutIgnored).elements? suffixEntry?
      else none := by
  cases v with
  | array vs => exact mapM_eq_ite rfl entriesAreRepresentable_append suffixEntry?_eq vs
  | string | integer | decimal | boolean | time | table => rfl

end Toml.Value

namespace Policy

/-- An entry of a document sets what it sets without the ignored entries. -/
theorem setKey?_eq (p : Policy) (e : String × Toml.Value) :
    p.setKey? e =
      if Toml.entriesAreRepresentable (ignoredOfEntry e) then p.setKey? (readOfEntry e)
      else none := by
  obtain ⟨key, v⟩ := e
  by_cases hkey : key = "suffix_stripping"
  · subst hkey
    show (v.elements? Toml.Value.suffixEntry?).map _ = _
    rw [Toml.Value.elements?_suffixEntry?_eq, ignoredOfEntry, if_pos rfl, readOfEntry, if_pos rfl]
    split <;> rfl
  · rw [ignoredOfEntry, if_neg hkey, readOfEntry, if_neg hkey]
    rfl

/-- A document sets what it sets without the ignored entries. -/
theorem ofTable?_eq (entries : List (String × Toml.Value)) :
    ofTable? entries =
      if Toml.entriesAreRepresentable (ignoredEntries entries) then ofTable? (readEntries entries)
      else none := by
  unfold ofTable?
  generalize ({} : Policy) = p
  induction entries generalizing p with
  | nil => rfl
  | cons e entries ih =>
    rw [List.foldlM_cons, setKey?_eq, ignoredEntries, List.flatMap_cons,
      Toml.entriesAreRepresentable_append, readEntries, List.map_cons, List.foldlM_cons]
    cases Toml.entriesAreRepresentable (ignoredOfEntry e) with
    | false => simp
    | true =>
      cases hset : p.setKey? (readOfEntry e) with
      | none => simp
      | some q => exact ih q

/-- No other key is accepted. -/
theorem mem_documentKeys_of_setKey? {p q : Policy} {e : String × Toml.Value}
    (h : p.setKey? e = some q) : e.1 ∈ documentKeys := by
  unfold setKey? at h
  split at h
  case h_11 => cases h
  all_goals
    next hkey =>
      rw [hkey]
      decide

theorem forall_mem_documentKeys {entries : List (String × Toml.Value)} {q : Policy}
    (h : ofTable? entries = some q) : ∀ e ∈ entries, e.1 ∈ documentKeys := by
  unfold ofTable? at h
  generalize ({} : Policy) = p at h
  induction entries generalizing p with
  | nil => simp
  | cons e entries ih =>
    rw [List.foldlM_cons] at h
    obtain ⟨p', hset, hrest⟩ := Option.bind_eq_some_iff.1 h
    exact List.forall_mem_cons.2 ⟨mem_documentKeys_of_setKey? hset, ih p' hrest⟩

/-! ### Texts -/

/-- However texts are read into tables, a text is accepted just when it is a document that has no
other keys than those of a document, in which everything is representable that stands under other
keys in the elements of `suffix_stripping`, and which sets a policy without that.  This is its
policy. -/
theorem ofText_eq_ok_iff (parse : String → Option (List (String × Toml.Value))) (text : String)
    (p : Policy) :
    ofTextBy parse text = .ok p ↔
      ∃ entries, parse text = some entries ∧ (∀ e ∈ entries, e.1 ∈ documentKeys) ∧
        Toml.entriesAreRepresentable (ignoredEntries entries) ∧
        ofTable? (readEntries entries) = some p := by
  have htext : ofTextBy parse text = .ok p ↔ (parse text).bind ofTable? = some p := by
    unfold ofTextBy
    cases (parse text).bind ofTable? with
    | none => simp
    | some q => simp
  rw [htext, Option.bind_eq_some_iff]
  refine exists_congr fun entries => and_congr_right fun _ => ?_
  constructor
  · intro hread
    refine ⟨forall_mem_documentKeys hread, ?_⟩
    rw [ofTable?_eq] at hread
    split at hread
    · next hrepresentable => exact ⟨hrepresentable, hread⟩
    · cases hread
  · rintro ⟨-, hrepresentable, hread⟩
    rw [ofTable?_eq, if_pos hrepresentable, hread]

/-- An element of `suffix_stripping` that misspells a key. -/
def misspelledText : String :=
  "[[suffix_stripping]]\ndimension = \"DEVICE_TIER\"\nenabled = true\ndefault_sufix = \"1\"\n"

/-- A document with a key that is not read need not be refused. -/
theorem not_forall_unknown_keys_refused :
    ¬ ∀ (text : String) (entries : List (String × Toml.Value)), Toml.parse? text = some entries →
      (∃ e ∈ entries, e.1 ∉ documentKeys) ∨ ignoredEntries entries ≠ [] →
        ∃ fault, ofText text = .error fault := by
  intro h
  have hignored : ((Toml.parse? misspelledText).map fun entries =>
      (ignoredEntries entries).map (·.1)) = some ["default_sufix"] := by decide +kernel
  obtain ⟨entries, hentries, hkeys⟩ := Option.map_eq_some_iff.1 hignored
  have hne : ignoredEntries entries ≠ [] := by
    intro hnil
    rw [hnil] at hkeys
    cases hkeys
  obtain ⟨fault, hfault⟩ := h misspelledText entries hentries (.inr hne)
  have hok : (ofText misspelledText).toOption.isSome := by decide +kernel
  rw [hfault] at hok
  cases hok

end Policy
end BundlePackaging
