import BundlePackaging.Proofs.ChosenVariants
import BundlePackaging.Proofs.EmittedPaths
import BundlePackaging.Proofs.SegmentPath

/-!
# Paths relative to the root of their module

The text of a path, read as a path again, names the same path unless it begins with a slash, for one
slash at the front of a text is not read.  A path comes to have such a text in two ways only.
Either two slashes were at the front of the text that it was read from, and the second one stayed;
or a suffix that was stripped was the whole name of the first directory, and the slash behind that
directory is now at the front.  What is left after a cut is not read again.

A path with a slash at its front is not found by its text, and it stands beside the path without the
slash: one file has two paths.

## Main definitions

* `EntryPath.IsRelative` — no slash is at the front of the path.
* `EntryPath.withoutSuffixes` — the path with the suffixes of several keys stripped, key by key.
* `EntryPath.firstDirectory?`, `EntryPath.BeginsWithSuffix` — the directory whose name a cut can
  take whole, and when it does.

## Main results

* `EntryPath.ofText_text_eq_self_iff` — the relative paths are those that are named by their texts.
* `EntryPath.isRelative_withoutSuffix_iff`, `EntryPath.isRelative_withoutSuffixes_iff` — what
  stripping one key does, and stripping several.
* `EntryPath.relative_paths_exact` — **which texts and keys give a relative path, and what a path
  lacks that is not relative.**
* `EntryPath.not_forall_relative` — not all texts and keys do.
* `Policy.forall_isRelative_partition_iff` — which modules are cut into fragments with relative
  paths.
-/

namespace BundlePackaging

/-- A slash is at the front just when the first of several components is empty. -/
theorem head?_eq_slash_iff {cs : List Char} :
    cs.head? = some '/' ↔ ∃ file rest, pathComponents cs = [] :: file :: rest := by
  cases cs with
  | nil => simp [pathComponents]
  | cons c cs =>
    rw [List.head?_cons, Option.some.injEq, pathComponents]
    obtain ⟨file, rest, hrest⟩ := List.exists_cons_of_ne_nil (pathComponents_ne_nil cs)
    by_cases hc : c = '/'
    · simp [hc, hrest]
    · simp [hc, hrest]

namespace EntryPath

variable {p q : EntryPath} {key key' : String} {keys : List String}

/-! ### Paths and their texts -/

/-- No slash is at the front of the path. -/
def IsRelative (p : EntryPath) : Prop := p.chars.head? ≠ some '/'

instance (p : EntryPath) : Decidable p.IsRelative := inferInstanceAs (Decidable (_ ≠ _))

theorem not_isRelative_iff : ¬ p.IsRelative ↔ ∃ rest, p.chars = '/' :: rest := by
  unfold IsRelative
  rw [not_not, List.head?_eq_some_iff]

theorem ofText_of_head? {s : String} (h : s.toList.head? ≠ some '/') : ofText s = ⟨s⟩ := by
  unfold ofText
  split
  · next rest hs => exact absurd (by rw [hs]; rfl) h
  · rfl

theorem chars_ofText_of_slash {s : String} {rest : List Char} (h : s.toList = '/' :: rest) :
    (ofText s).chars = rest := by
  unfold ofText chars
  rw [h]
  exact String.toList_ofList

/-- A text names a relative path unless two slashes are at its front. -/
theorem isRelative_ofText_iff {s : String} :
    (ofText s).IsRelative ↔ ¬ "//".toList <+: s.toList := by
  unfold IsRelative
  by_cases h : s.toList.head? = some '/'
  · obtain ⟨rest, hs⟩ := List.head?_eq_some_iff.1 h
    rw [chars_ofText_of_slash hs, hs]
    cases rest with
    | nil => simp
    | cons c rest => simp [eq_comm]
  · rw [ofText_of_head? h]
    refine iff_of_true h ?_
    rintro ⟨rest, hs⟩
    exact h (by rw [← hs]; rfl)

/-- The text of a path names the path just when the path is relative. -/
theorem ofText_text_eq_self_iff : ofText p.text = p ↔ p.IsRelative := by
  constructor
  · intro h
    by_contra hslash
    obtain ⟨rest, hp⟩ := not_isRelative_iff.1 hslash
    have hrest := chars_ofText_of_slash hp
    rw [h, hp] at hrest
    exact List.cons_ne_self _ _ hrest
  · exact ofText_of_head?

theorem ofText_text_eq_iff_of_isRelative (hp : p.IsRelative) (hq : ¬ q.IsRelative) :
    ofText p.text = ofText q.text ↔ q.chars = '/' :: p.chars := by
  obtain ⟨rest, hrest⟩ := not_isRelative_iff.1 hq
  rw [ofText_text_eq_self_iff.2 hp, hrest, List.cons_inj_right, ← chars_ofText_of_slash hrest]
  exact ⟨fun h => by rw [← h], fun h => (eq_of_chars_eq h).symm⟩

/-- The texts of two paths name one path just when one of the two is relative and the other is the
same with a slash in front. -/
theorem ofText_text_eq_iff (hne : p ≠ q) : ofText p.text = ofText q.text ↔
    p.IsRelative ∧ q.chars = '/' :: p.chars ∨ q.IsRelative ∧ p.chars = '/' :: q.chars := by
  by_cases hp : p.IsRelative
  · by_cases hq : q.IsRelative
    · rw [ofText_text_eq_self_iff.2 hp, ofText_text_eq_self_iff.2 hq]
      refine iff_of_false hne ?_
      rintro (⟨-, h⟩ | ⟨-, h⟩)
      · exact not_isRelative_iff.2 ⟨_, h⟩ hq
      · exact not_isRelative_iff.2 ⟨_, h⟩ hp
    · simp only [ofText_text_eq_iff_of_isRelative hp hq, hp, hq, true_and, false_and, or_false]
  · by_cases hq : q.IsRelative
    · rw [eq_comm]
      simp only [ofText_text_eq_iff_of_isRelative hq hp, hp, hq, true_and, false_and, false_or]
    · simp only [hp, hq, false_and, or_false, iff_false]
      intro h
      -- the texts behind the slashes are the same, and so the paths are
      obtain ⟨rest, hrest⟩ := not_isRelative_iff.1 hp
      obtain ⟨rest', hrest'⟩ := not_isRelative_iff.1 hq
      have hsame := congrArg chars h
      rw [chars_ofText_of_slash hrest, chars_ofText_of_slash hrest'] at hsame
      exact hne (eq_of_chars_eq (by rw [hrest, hrest', hsame]))

/-- What is at a path is found by the text of the path just when the path is relative. -/
theorem find?_ofText_text_iff {f : Fragment} {e : Entry} (h : f.find? p = some e) :
    f.find? (ofText p.text) = some e ↔ p.IsRelative := by
  rw [← ofText_text_eq_self_iff]
  constructor
  · intro htext
    rw [← f.path_of_find? htext, f.path_of_find? h]
  · intro htext
    rw [htext, h]

/-! ### The first directory -/

/-- The name of the first directory of a path, if the path is not a file's name alone. -/
def firstDirectory? (p : EntryPath) : Option (List Char) :=
  match p.chars.splitOn '/' with
  | directory :: _ :: _ => some directory
  | _ => none

/-- The name of the first directory begins with a suffix for the key. -/
def BeginsWithSuffix (p : EntryPath) (key : String) : Prop :=
  ∃ directory ∈ p.firstDirectory?, suffixMarker key <+: directory

instance (p : EntryPath) (key : String) : Decidable (p.BeginsWithSuffix key) :=
  inferInstanceAs (Decidable (∃ _ ∈ _, _))

theorem isRelative_iff_firstDirectory? : p.IsRelative ↔ p.firstDirectory? ≠ some [] := by
  unfold IsRelative firstDirectory?
  rw [Ne, head?_eq_slash_iff, pathComponents_eq_splitOn]
  split
  · next directory file rest hp => simp [hp]
  · next hp =>
    refine iff_of_true ?_ (by simp)
    rintro ⟨file, rest, hslash⟩
    exact hp [] file rest hslash

/-- Stripping the suffixes of a key cuts off the name of the first directory. -/
theorem firstDirectory?_withoutSuffix (p : EntryPath) (key : String) :
    (p.withoutSuffix key).firstDirectory? =
      p.firstDirectory?.map (cutAt (suffixMarker key)) := by
  unfold firstDirectory?
  rw [← pathComponents_eq_splitOn, ← pathComponents_eq_splitOn, pathComponents_withoutSuffix]
  rcases pathComponents p.chars with _ | ⟨directory, _ | ⟨file, rest⟩⟩
  · rfl
  · rfl
  · -- there are components behind the first one afterwards as well
    have hlength := length_mapDirectories (cutAt (suffixMarker key)) (file :: rest)
    obtain ⟨file', rest', hrest⟩ := List.exists_cons_of_length_eq_add_one hlength
    rw [mapDirectories, hrest]
    rfl

/-- A path that is not relative comes from one that is not, or from one whose first directory has a
name that begins with a suffix for the key. -/
theorem isRelative_withoutSuffix_iff :
    (p.withoutSuffix key).IsRelative ↔ p.IsRelative ∧ ¬ p.BeginsWithSuffix key := by
  rw [isRelative_iff_firstDirectory?, isRelative_iff_firstDirectory?,
    firstDirectory?_withoutSuffix, BeginsWithSuffix]
  cases p.firstDirectory? with
  | none => simp
  | some directory => simp [cutAt_eq_nil_iff]

/-- A suffix that the name of the first directory begins with stays there if the suffixes of another
key are stripped, unless the name begins with one of these too. -/
theorem beginsWithSuffix_withoutSuffix_iff (hkey : '#' ∉ key.toList)
    (h : ¬ p.BeginsWithSuffix key') :
    (p.withoutSuffix key').BeginsWithSuffix key ↔ p.BeginsWithSuffix key := by
  unfold BeginsWithSuffix at h ⊢
  rw [firstDirectory?_withoutSuffix]
  cases hp : p.firstDirectory? with
  | none => simp
  | some directory =>
    simp only [hp, Option.mem_some_iff, exists_eq_left', Option.map_some] at h ⊢
    constructor
    · intro hmarker
      exact hmarker.trans <| cutAt_prefix _ directory
    · intro hmarker
      cases directory with
      | nil => exact absurd (List.prefix_nil.1 hmarker) (suffixMarker_ne_nil key)
      | cons c name =>
        rw [cutAt, if_neg (by rwa [List.isPrefixOf_iff_prefix])]
        obtain ⟨hc, hname⟩ := List.cons_prefix_cons.1 hmarker
        refine List.cons_prefix_cons.2 ⟨hc, prefix_cutAt_of_notMem ?_ hname _⟩
        simpa using hkey

/-! ### Several keys -/

/-- The path with the suffixes of several keys stripped, one key after the other. -/
def withoutSuffixes (p : EntryPath) (keys : List String) : EntryPath := keys.foldl withoutSuffix p

@[simp] theorem withoutSuffixes_nil (p : EntryPath) : p.withoutSuffixes [] = p := rfl

@[simp] theorem withoutSuffixes_cons (p : EntryPath) (key : String) (keys : List String) :
    p.withoutSuffixes (key :: keys) = (p.withoutSuffix key).withoutSuffixes keys := rfl

/-- A path is still relative after several keys just when it was before and its first directory has
at no key's turn a name that begins with a suffix for that key. -/
theorem isRelative_withoutSuffixes_iff :
    (p.withoutSuffixes keys).IsRelative ↔ p.IsRelative ∧ ∀ front key rest,
      keys = front ++ key :: rest → ¬ (p.withoutSuffixes front).BeginsWithSuffix key := by
  induction keys generalizing p with
  | nil => simp
  | cons key keys ih =>
    rw [withoutSuffixes_cons, ih, isRelative_withoutSuffix_iff, and_assoc]
    refine and_congr_right fun _ => ?_
    constructor
    · rintro ⟨hfirst, hlater⟩ front key' rest hsplit
      rcases List.cons_eq_append_iff.1 hsplit with ⟨rfl, hkey⟩ | ⟨front', rfl, hkeys⟩
      · obtain ⟨rfl, rfl⟩ := List.cons.inj hkey
        exact hfirst
      · rw [withoutSuffixes_cons]
        exact hlater front' key' rest hkeys
    · intro h
      refine ⟨h [] key keys rfl, ?_⟩
      rintro front key' rest rfl
      rw [← withoutSuffixes_cons]
      exact h (key :: front) key' rest rfl

/-- The keys have no turns if none has a `#`: it is the name of the first directory at the beginning
that counts. -/
theorem isRelative_withoutSuffixes_iff_of_notMem (h : ∀ key ∈ keys, '#' ∉ key.toList) :
    (p.withoutSuffixes keys).IsRelative ↔
      p.IsRelative ∧ ∀ key ∈ keys, ¬ p.BeginsWithSuffix key := by
  induction keys generalizing p with
  | nil => simp
  | cons key keys ih =>
    obtain ⟨-, hkeys⟩ := List.forall_mem_cons.1 h
    rw [withoutSuffixes_cons, ih hkeys, isRelative_withoutSuffix_iff, and_assoc,
      List.forall_mem_cons]
    refine and_congr_right fun _ => and_congr_right fun hfirst => ?_
    refine forall₂_congr fun key' hkey' => not_congr ?_
    exact beginsWithSuffix_withoutSuffix_iff (hkeys key' hkey') hfirst

/-! ### Paths of code segments -/

theorem isRelative_dex (n : ℕ) : (dex n).IsRelative := by
  unfold IsRelative
  rw [chars_dex]
  simp

/-- A path of a code segment has no suffixes. -/
theorem withoutSuffixes_dex (n : ℕ) (keys : List String) : (dex n).withoutSuffixes keys = dex n := by
  apply List.foldl_fixed'
  apply withoutSuffix_of_notMem
  have hnumber : '#' ∉ (if n ≤ 1 then [] else Nat.toDigits 10 n) := fun hhash =>
    absurd (isDigit_of_mem_number hhash) (by decide)
  rw [chars_dex]
  simpa using hnumber

/-! ### Relative paths -/

/-- A path that is read from a text and loses the suffixes of some keys is relative just when the
text does not begin with two slashes and at no key's turn the name of the first directory begins
with a suffix for it; if no key has a `#`, the turns do not matter.  The paths of code segments stay
as they are, and are relative.  A path is relative just when it is the one that its text names, and
just when what is at it is found by its text.  Another path has a text that names the same path just
when one of the two is relative and the other is the same with a slash in front, so that it is not.
-/
theorem relative_paths_exact (s : String) (keys : List String) :
    (((ofText s).withoutSuffixes keys).IsRelative ↔ ¬ "//".toList <+: s.toList ∧
      ∀ front key rest, keys = front ++ key :: rest →
        ¬ ((ofText s).withoutSuffixes front).BeginsWithSuffix key) ∧
    ((∀ key ∈ keys, '#' ∉ key.toList) →
      (((ofText s).withoutSuffixes keys).IsRelative ↔ ¬ "//".toList <+: s.toList ∧
        ∀ key ∈ keys, ¬ (ofText s).BeginsWithSuffix key)) ∧
    (∀ n, (dex n).withoutSuffixes keys = dex n ∧ (dex n).IsRelative ∧
      ofText (dex n).text = dex n) ∧
    let p := (ofText s).withoutSuffixes keys
    (ofText p.text = p ↔ p.IsRelative) ∧
    (∀ (f : Fragment) (e : Entry), f.find? p = some e →
      (f.find? (ofText p.text) = some e ↔ p.IsRelative)) ∧
    ∀ q, p ≠ q → (ofText p.text = ofText q.text ↔
      p.IsRelative ∧ q.chars = '/' :: p.chars ∨ q.IsRelative ∧ p.chars = '/' :: q.chars) := by
  rw [← isRelative_ofText_iff]
  refine ⟨isRelative_withoutSuffixes_iff, isRelative_withoutSuffixes_iff_of_notMem, ?_, ?_⟩
  · intro n
    have hrelative := isRelative_dex n
    exact ⟨withoutSuffixes_dex n keys, hrelative, ofText_text_eq_self_iff.2 hrelative⟩
  · intro p
    exact ⟨ofText_text_eq_self_iff, fun f e => find?_ofText_text_iff, fun q => ofText_text_eq_iff⟩

/-- A directory that is named by its suffix alone leaves a slash at the front. -/
theorem not_forall_relative :
    ¬ ∀ (s : String) (keys : List String), ((ofText s).withoutSuffixes keys).IsRelative ∧
      ofText ((ofText s).withoutSuffixes keys).text = (ofText s).withoutSuffixes keys := by
  intro h
  obtain ⟨hrelative, -⟩ := h "#tcf_astc/a.ktx" ["tcf"]
  exact absurd hrelative (by decide)

/-- A key with `#` has to have its turn before another key takes its suffixes apart. -/
example : let p := ofText "#a#b_1/f"
    ¬ (p.withoutSuffixes ["a#b", "b"]).IsRelative ∧ (p.withoutSuffixes ["b", "a#b"]).IsRelative := by
  decide

end EntryPath

/-! ### The paths of a module's fragments -/

namespace Policy

variable {p : Policy} {m : BundleModule} {dims : SortedSet Dimension} {c : Candidate}

/-- A candidate that stays is at a relative path just when its path is relative, and the name of the
first directory does not begin with a suffix along a dimension along which the candidate is moved.
-/
theorem isRelative_path_settled_iff : (p.settled c).entry.path.IsRelative ↔
    c.entry.path.IsRelative ∧ ∀ d ∈ p.movedAlong c, ∀ key ∈ d.suffixKey?,
      ¬ c.entry.path.BeginsWithSuffix key := by
  have hpath : (p.settled c).entry.path =
      c.entry.path.withoutSuffixes ((p.movedAlong c).filterMap (·.suffixKey?)) := by
    unfold EntryPath.withoutSuffixes
    rw [List.foldl_filterMap]
    refine List.foldl_ext _ _ _ fun q d _ => ?_
    unfold EntryPath.withoutSuffixesOf
    cases d.suffixKey? <;> rfl
  rw [hpath, EntryPath.isRelative_withoutSuffixes_iff_of_notMem]
  · simp only [List.mem_filterMap, forall_exists_index, and_imp, Option.mem_def]
    exact and_congr_right fun _ =>
      ⟨fun h d hd key hkey => h key d hd hkey, fun h key d hd hkey => h d hd key hkey⟩
  · intro key hkey
    obtain ⟨d, -, hkey⟩ := List.mem_filterMap.1 hkey
    exact Dimension.hash_notMem_of_suffixKey? hkey

theorem isRelative_path_offered (h : ∀ s ∈ m.slots, s.entry.path.IsRelative)
    (hc : c ∈ p.offered m dims) : c.entry.path.IsRelative := by
  have hplaceholder (a : Abi) : (placeholderPath a).IsRelative := by
    rw [placeholderPath, EntryPath.isRelative_ofText_iff, String.toList_append, String.toList_append]
    simp
  rcases List.mem_append.1 hc with hc | hc
  · obtain ⟨s, hs, rfl⟩ := List.mem_map.1 hc
    exact h s hs
  · obtain ⟨-, a, rfl⟩ := mem_placeholders hc
    exact hplaceholder a

/-- A module with relative paths is cut into fragments with relative paths just when no entry of a
chosen variant is in a first directory with a name that begins with a suffix that is stripped. -/
theorem forall_isRelative_partition_iff (h : ∀ s ∈ m.slots, s.entry.path.IsRelative) :
    (∀ q ∈ (p.partition m dims).flatMap (·.paths), q.IsRelative) ↔
      ∀ c ∈ p.offered m dims, p.chooses c → ∀ d ∈ p.movedAlong c, ∀ key ∈ d.suffixKey?,
        ¬ c.entry.path.BeginsWithSuffix key := by
  have hpaths (q : EntryPath) : q ∈ (p.partition m dims).flatMap (·.paths) ↔
      ∃ c ∈ p.offered m dims, p.keeps (p.offered m dims) c ∧ (p.settled c).entry.path = q := by
    rw [(p.paths_partition_perm m dims).mem_iff, selected, selectVariants_eq]
    simp [and_assoc]
  constructor
  · intro hrelative c hc hchooses d hd
    -- a candidate that is moved is a variant, and stays
    have hvariant : p.isVariant c :=
      List.any_eq_true.2 ⟨d, List.mem_of_mem_filter hd, (List.mem_filter.1 hd).2⟩
    have hkeeps : p.keeps (p.offered m dims) c := by
      simp [keeps, hchooses, hvariant]
    have hpath := hrelative _ ((hpaths _).2 ⟨c, hc, hkeeps, rfl⟩)
    exact (isRelative_path_settled_iff.1 hpath).2 d hd
  · intro hchosen q hq
    obtain ⟨c, hc, hkeeps, rfl⟩ := (hpaths q).1 hq
    have hchooses : p.chooses c := (Bool.and_eq_true_iff.1 hkeeps).1
    exact isRelative_path_settled_iff.2 ⟨isRelative_path_offered h hc, hchosen c hc hchooses⟩

/-- The texture in the directory `#tcf_astc` ends up beside the fallback that it is to replace. -/
example :
    let p : Policy := { suffixPolicies := .ofList [(.textureFormat, ⟨true, some "astc"⟩)] }
    let m : BundleModule :=
      { name := "base", kind := .base, manifest := ⟨"app", ∅, ∅⟩
        slots := [⟨⟨⟨"a.ktx"⟩, ⟨1, .memory [1]⟩, .compressed⟩, none⟩,
          ⟨⟨⟨"#tcf_astc/a.ktx"⟩, ⟨2, .memory [2]⟩, .compressed⟩,
            some ⟨.ofValue (.textureFormat .astc), none⟩⟩]
        distinct := by decide }
    (p.partition m (.ofList [.abi])).flatMap (·.paths) = [⟨"a.ktx"⟩, ⟨"/a.ktx"⟩] := rfl

end Policy
end BundlePackaging
