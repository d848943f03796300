import BundlePackaging.EntryPath
import Mathlib.Data.List.Basic
import Mathlib.Data.List.Forall2

/-!
# Cutting off directory suffixes

The suffixes of a key are cut off the components of a path one by one, the last component apart.  A
cut leaves a front part of a component, so it makes no new components, and the components of the
path that is left are the cut components.  What opens a suffix has its only `#` at its front, unless
the key has one.  So a cut for one key removes what opens a suffix for another key whole or not at
all, and the order of the two cuts makes no difference.

## Main definitions

* `FirstCut` — what stands in front of the first place of a marker, said without searching for it.

## Main results

* `pathComponents_eq_splitOn` — components are what `List.splitOn` gives.
* `firstCut_cutAt`, `not_infix_cutAt` — a cut is made at the first place, and leaves none.
* `cutAt_comm` — two cuts commute.
* `pathComponents_withoutSuffix`, `firstCut_withoutSuffix` — the components of a path without the
  suffixes of a key.
* `withoutSuffix_of_notMem` — a path without `#` stays as it is.
* `withoutSuffix_comm` — the suffixes of two keys can be stripped in either order.
* `withoutSuffix_laws` — **what stripping the suffixes of a key does to the components of a path.**
-/

namespace BundlePackaging

variable {marker marker' cs : List Char} {c : Char}

/-! ### Components -/

theorem pathComponents_eq_splitOn (cs : List Char) : pathComponents cs = cs.splitOn '/' := by
  induction cs with
  | nil => rfl
  | cons c cs ih =>
    rw [pathComponents, ih, List.splitOn_cons_eq_if_modifyHead]
    by_cases hc : c = '/'
    · simp [hc]
    · rw [if_neg hc, if_neg (by simpa using hc)]
      cases hsplit : cs.splitOn '/' with
      | nil => exact absurd hsplit (List.splitOn_ne_nil _ _)
      | cons w ws => rfl

/-- No component has a slash. -/
theorem slash_notMem_of_mem_pathComponents {w : List Char} (h : w ∈ pathComponents cs) :
    '/' ∉ w := by
  induction cs generalizing w with
  | nil =>
    obtain rfl := List.mem_singleton.1 h
    simp
  | cons c cs ih =>
    rw [pathComponents] at h
    split at h
    · rcases List.mem_cons.1 h with rfl | h
      · simp
      · exact ih h
    · next hc =>
      cases hsplit : pathComponents cs with
      | nil => exact absurd hsplit (pathComponents_ne_nil cs)
      | cons v vs =>
        rw [hsplit] at h
        rcases List.mem_cons.1 h with rfl | h
        · have hv : '/' ∉ v := ih (by simp [hsplit])
          simp [hv, Ne.symm hc]
        · exact ih (by simp [hsplit, h])

/-- The components are made of characters of the text. -/
theorem mem_of_mem_pathComponents {w : List Char} (h : w ∈ pathComponents cs) {c : Char}
    (hc : c ∈ w) : c ∈ cs := by
  rw [← intercalate_pathComponents cs]
  generalize pathComponents cs = ws at h
  induction ws with
  | nil => cases h
  | cons v ws ih =>
    cases ws with
    | nil =>
      obtain rfl := List.mem_singleton.1 h
      simpa using hc
    | cons u ws =>
      rw [List.intercalate_cons_cons]
      rcases List.mem_cons.1 h with rfl | h
      · simp [hc]
      · simp [ih h]

/-- Components without slashes, joined by slashes, are the components of the text. -/
theorem pathComponents_intercalate {ws : List (List Char)} (hne : ws ≠ [])
    (h : ∀ w ∈ ws, '/' ∉ w) : pathComponents (['/'].intercalate ws) = ws := by
  rw [pathComponents_eq_splitOn]
  exact List.splitOn_intercalate '/' h hne

/-! ### Cuts -/

/-- `front` is the part of a text in front of the first place where `marker` stands, and the whole
text if it stands nowhere. -/
structure FirstCut (marker text front : List Char) : Prop where
  /-- Nothing is cut off a text without the marker. -/
  whole : ¬ marker <:+: text → front = text
  /-- Otherwise the marker stands right behind the part. -/
  found : marker <:+: text → ∃ rest, text = front ++ marker ++ rest
  /-- The marker stands nowhere before. -/
  first : ∀ u v, text = u ++ marker ++ v → front.length ≤ u.length

theorem firstCut_cutAt (marker cs : List Char) : FirstCut marker cs (cutAt marker cs) := by
  induction cs with
  | nil =>
    refine ⟨fun _ => rfl, ?_, fun u v _ => Nat.zero_le _⟩
    intro h
    obtain rfl := List.infix_nil.1 h
    exact ⟨[], rfl⟩
  | cons c cs ih =>
    rw [cutAt]
    split
    · next hfront =>
      have hprefix := List.isPrefixOf_iff_prefix.1 hfront
      refine ⟨fun h => absurd hprefix.isInfix h, ?_, fun u v _ => Nat.zero_le _⟩
      intro _
      obtain ⟨rest, hrest⟩ := hprefix
      exact ⟨rest, hrest.symm⟩
    · next hfront =>
      rw [List.isPrefixOf_iff_prefix] at hfront
      refine ⟨?_, ?_, ?_⟩
      · intro h
        rw [ih.whole fun hcs => h (List.infix_cons_iff.2 (.inr hcs))]
      · intro h
        obtain ⟨rest, hrest⟩ := ih.found ((List.infix_cons_iff.1 h).resolve_left hfront)
        exact ⟨rest, congrArg (c :: ·) hrest⟩
      · intro u v h
        cases u with
        | nil => exact absurd ⟨v, h.symm⟩ hfront
        | cons d u => exact Nat.succ_le_succ (ih.first u v (List.cons.inj h).2)

theorem cutAt_of_notMem {c : Char} (hmarker : c ∈ marker) (hcs : c ∉ cs) : cutAt marker cs = cs :=
  (firstCut_cutAt marker cs).whole fun hfound => hcs (hfound.subset hmarker)

/-- Nothing is left of a text just when it begins with the marker or is empty. -/
theorem cutAt_eq_nil_iff : cutAt marker cs = [] ↔ cs = [] ∨ marker <+: cs := by
  cases cs with
  | nil => simp [cutAt]
  | cons c cs =>
    simp only [cutAt, List.isPrefixOf_iff_prefix]
    by_cases h : marker <+: c :: cs
    · simp [h]
    · simp [h]

/-- What is left after a cut has no place for another one. -/
theorem not_infix_cutAt (hmarker : marker ≠ []) (cs : List Char) :
    ¬ marker <:+: cutAt marker cs := by
  have hcut := firstCut_cutAt marker cs
  rintro ⟨u, v, huv⟩
  -- the marker stands in the text as well, and so again behind the part, which is too late
  have hfront := cutAt_prefix marker cs
  have hinfix : marker <:+: cs := List.IsInfix.trans ⟨u, v, huv⟩ hfront.isInfix
  obtain ⟨rest, hrest⟩ := hcut.found hinfix
  have hfirst := hcut.first u (v ++ marker ++ rest) (by rw [hrest, ← huv]; simp)
  have hlength := congrArg List.length huv
  rw [List.length_append, List.length_append] at hlength
  have hpos := List.length_pos_iff.2 hmarker
  omega

theorem cutAt_cutAt (hmarker : marker ≠ []) (cs : List Char) :
    cutAt marker (cutAt marker cs) = cutAt marker cs :=
  (firstCut_cutAt marker _).whole (not_infix_cutAt hmarker cs)

/-- A text without `#` at the front of another is still there after a cut at a marker that begins
with `#`. -/
theorem prefix_cutAt_of_notMem {text : List Char} (htext : '#' ∉ text) (h : text <+: cs)
    (marker : List Char) : text <+: cutAt ('#' :: marker) cs := by
  induction text generalizing cs with
  | nil => exact List.nil_prefix
  | cons c text ih =>
    rw [List.mem_cons, not_or] at htext
    obtain ⟨hc, htext⟩ := htext
    cases cs with
    | nil => exact absurd h (by simp)
    | cons d cs =>
      obtain ⟨rfl, hrest⟩ := List.cons_prefix_cons.1 h
      rw [cutAt, if_neg]
      · exact List.cons_prefix_cons.2 ⟨rfl, ih htext hrest⟩
      · rw [List.isPrefixOf_iff_prefix]
        intro hmarker
        exact hc (List.cons_prefix_cons.1 hmarker).1

/-- Cuts at markers that have their only `#` at their front commute. -/
theorem cutAt_comm (hmarker : '#' ∉ marker) (hmarker' : '#' ∉ marker') (cs : List Char) :
    cutAt ('#' :: marker) (cutAt ('#' :: marker') cs) =
      cutAt ('#' :: marker') (cutAt ('#' :: marker) cs) := by
  induction cs with
  | nil => rfl
  | cons c cs ih =>
    -- a marker stands at the front after the other cut just when it stood there before
    have hstays {m m' : List Char} (hm : '#' ∉ m) :
        '#' :: m <+: c :: cutAt ('#' :: m') cs ↔ '#' :: m <+: c :: cs := by
      rw [List.cons_prefix_cons, List.cons_prefix_cons]
      apply and_congr_right'
      constructor
      · intro h
        exact h.trans <| cutAt_prefix _ cs
      · intro h
        exact prefix_cutAt_of_notMem hm h m'
    simp only [cutAt, List.isPrefixOf_iff_prefix]
    by_cases h : '#' :: marker <+: c :: cs
    · by_cases h' : '#' :: marker' <+: c :: cs
      · simp only [h, h', if_true, cutAt]
      · simp only [h, h', if_true, if_false, cutAt, List.isPrefixOf_iff_prefix, hstays hmarker]
    · by_cases h' : '#' :: marker' <+: c :: cs
      · simp only [h, h', if_true, if_false, cutAt, List.isPrefixOf_iff_prefix, hstays hmarker']
      · simp only [h, h', if_false, cutAt, List.isPrefixOf_iff_prefix, hstays hmarker,
          hstays hmarker', ih]

/-! ### Directories -/

theorem mapDirectories_mapDirectories (f g : List Char → List Char) (ds : List (List Char)) :
    mapDirectories f (mapDirectories g ds) = mapDirectories (f ∘ g) ds := by
  fun_induction mapDirectories g ds with
  | case1 => rfl
  | case2 => rfl
  | case3 d e rest ih =>
    cases hrest : mapDirectories g (e :: rest) with
    | nil =>
      have hlength := length_mapDirectories g (e :: rest)
      rw [hrest] at hlength
      cases hlength
    | cons w ws =>
      rw [mapDirectories, mapDirectories, ← ih, hrest]
      rfl

theorem mapDirectories_concat (f : List Char → List Char) (ds : List (List Char))
    (file : List Char) : mapDirectories f (ds ++ [file]) = ds.map f ++ [file] := by
  induction ds with
  | nil => rfl
  | cons d ds ih =>
    cases ds with
    | nil => rfl
    | cons e ds =>
      rw [List.cons_append, List.cons_append, mapDirectories, ← List.cons_append, ih]
      rfl

theorem mapDirectories_eq_self {f : List Char → List Char} {ds : List (List Char)}
    (h : ∀ d ∈ ds, f d = d) : mapDirectories f ds = ds := by
  fun_induction mapDirectories f ds with
  | case1 => rfl
  | case2 => rfl
  | case3 d e rest ih =>
    obtain ⟨hd, hrest⟩ := List.forall_mem_cons.1 h
    rw [hd, ih hrest]

/-- What holds of the components and of what becomes of them holds of the components after. -/
theorem forall_mem_mapDirectories {P : List Char → Prop} {f : List Char → List Char}
    (hf : ∀ w, P w → P (f w)) {ds : List (List Char)} (h : ∀ w ∈ ds, P w) :
    ∀ w ∈ mapDirectories f ds, P w := by
  fun_induction mapDirectories f ds with
  | case1 => simp
  | case2 => exact h
  | case3 d e rest ih =>
    obtain ⟨hd, hrest⟩ := List.forall_mem_cons.1 h
    exact List.forall_mem_cons.2 ⟨hf d hd, ih hrest⟩

namespace EntryPath

/-- The components of a path without the suffixes of a key are the components of the path, each but
the last cut off where a suffix begins. -/
theorem pathComponents_withoutSuffix (p : EntryPath) (key : String) :
    pathComponents (p.withoutSuffix key).chars =
      mapDirectories (cutAt (suffixMarker key)) (pathComponents p.chars) := by
  unfold withoutSuffix chars
  rw [String.toList_ofList]
  apply pathComponents_intercalate
  · intro hnil
    have hlength := length_mapDirectories (cutAt (suffixMarker key)) (pathComponents p.text.toList)
    rw [hnil] at hlength
    exact pathComponents_ne_nil _ (List.eq_nil_of_length_eq_zero hlength.symm)
  · apply forall_mem_mapDirectories
    · intro w hw hslash
      have hfront := cutAt_prefix (suffixMarker key) w
      exact hw (hfront.subset hslash)
    · intro w
      exact slash_notMem_of_mem_pathComponents

theorem withoutSuffix_eq (p : EntryPath) (key : String) : p.withoutSuffix key =
    ⟨String.ofList (['/'].intercalate
      (mapDirectories (cutAt (suffixMarker key)) (pathComponents p.chars)))⟩ := rfl

/-- A path without `#` has no suffixes. -/
theorem withoutSuffix_of_notMem {p : EntryPath} (h : '#' ∉ p.chars) (key : String) :
    p.withoutSuffix key = p := by
  rw [withoutSuffix_eq, mapDirectories_eq_self, intercalate_pathComponents]
  · exact ext String.ofList_toList
  · intro directory hdirectory
    refine cutAt_of_notMem (c := '#') List.mem_cons_self ?_
    exact fun hhash => h (mem_of_mem_pathComponents hdirectory hhash)

/-- The suffixes of two keys without `#` can be stripped in either order. -/
theorem withoutSuffix_comm {key key' : String} (hkey : '#' ∉ key.toList)
    (hkey' : '#' ∉ key'.toList) (p : EntryPath) :
    (p.withoutSuffix key).withoutSuffix key' = (p.withoutSuffix key').withoutSuffix key := by
  have hcuts : cutAt (suffixMarker key') ∘ cutAt (suffixMarker key) =
      cutAt (suffixMarker key) ∘ cutAt (suffixMarker key') := by
    funext w
    apply cutAt_comm
    · simpa using hkey'
    · simpa using hkey
  rw [withoutSuffix_eq (p.withoutSuffix key), withoutSuffix_eq (p.withoutSuffix key'),
    pathComponents_withoutSuffix, pathComponents_withoutSuffix, mapDirectories_mapDirectories,
    mapDirectories_mapDirectories, hcuts]

theorem suffixMarker_ne_nil (key : String) : suffixMarker key ≠ [] := by simp [suffixMarker]

theorem withoutSuffix_withoutSuffix (p : EntryPath) (key : String) :
    (p.withoutSuffix key).withoutSuffix key = p.withoutSuffix key := by
  have hcuts : cutAt (suffixMarker key) ∘ cutAt (suffixMarker key) = cutAt (suffixMarker key) :=
    funext (cutAt_cutAt (suffixMarker_ne_nil key))
  rw [withoutSuffix_eq (p.withoutSuffix key), pathComponents_withoutSuffix,
    mapDirectories_mapDirectories, hcuts, ← withoutSuffix_eq]

/-- The components of a path are directories and a file name; without the suffixes of a key they are
the same file name behind the cut directories. -/
theorem exists_components_withoutSuffix (p : EntryPath) (key : String) :
    ∃ directories file, p.chars.splitOn '/' = directories ++ [file] ∧
      (p.withoutSuffix key).chars.splitOn '/' =
        directories.map (cutAt (suffixMarker key)) ++ [file] := by
  have hafter := pathComponents_withoutSuffix p key
  rw [pathComponents_eq_splitOn, pathComponents_eq_splitOn] at hafter
  obtain ⟨directories, file, hbefore⟩ : ∃ directories file,
      p.chars.splitOn '/' = directories ++ [file] :=
    ⟨_, _, (List.dropLast_concat_getLast (List.splitOn_ne_nil '/' p.chars)).symm⟩
  rw [hbefore, mapDirectories_concat] at hafter
  exact ⟨directories, file, hbefore, hafter⟩

/-- Every component but the last is cut off at the first place where a suffix begins. -/
theorem firstCut_withoutSuffix (p : EntryPath) (key : String) :
    ((p.withoutSuffix key).chars.splitOn '/').getLast? = (p.chars.splitOn '/').getLast? ∧
      List.Forall₂ (FirstCut (suffixMarker key)) (p.chars.splitOn '/').dropLast
        ((p.withoutSuffix key).chars.splitOn '/').dropLast := by
  obtain ⟨directories, file, hbefore, hafter⟩ := exists_components_withoutSuffix p key
  rw [hbefore, hafter]
  refine ⟨by simp, ?_⟩
  rw [List.dropLast_concat, List.dropLast_concat, List.forall₂_map_right_iff, List.forall₂_same]
  intro d _
  exact firstCut_cutAt (suffixMarker key) d

/-- Stripping the suffixes of a key keeps the number of components and the last component.  Of every
other component it keeps the part in front of the first place where a suffix for the key begins, and
all of it if there is none, so that no suffix for the key is left.  Stripping again changes nothing,
and the suffixes of two keys without `#` can be stripped in either order. -/
theorem withoutSuffix_laws (p : EntryPath) (key : String) :
    let before := p.chars.splitOn '/'
    let after := (p.withoutSuffix key).chars.splitOn '/'
    after.length = before.length ∧ after.getLast? = before.getLast? ∧
    List.Forall₂ (FirstCut (suffixMarker key)) before.dropLast after.dropLast ∧
    (∀ directory ∈ after.dropLast, ¬ suffixMarker key <:+: directory) ∧
    (p.withoutSuffix key).withoutSuffix key = p.withoutSuffix key ∧
    ∀ key' : String, '#' ∉ key.toList → '#' ∉ key'.toList →
      (p.withoutSuffix key).withoutSuffix key' = (p.withoutSuffix key').withoutSuffix key := by
  intro before after
  obtain ⟨hlast, hcuts⟩ := firstCut_withoutSuffix p key
  obtain ⟨directories, file, (hbefore : before = _), (hafter : after = _)⟩ :=
    exists_components_withoutSuffix p key
  refine ⟨?_, hlast, hcuts, ?_, withoutSuffix_withoutSuffix p key, ?_⟩
  · rw [hbefore, hafter]
    simp
  · rw [hafter, List.dropLast_concat, List.forall_mem_map]
    intro d _
    exact not_infix_cutAt (suffixMarker_ne_nil key) d
  · intro key' hkey hkey'
    exact withoutSuffix_comm hkey hkey' p

/-- The file's own name keeps what looks like a suffix, and another key its suffixes. -/
example : (ofText "assets/textures#tcf_astc/level#tier_1/a#tcf_x.png").withoutSuffix "tcf" =
    ofText "assets/textures/level#tier_1/a#tcf_x.png" := by decide

/-- A key with `#` is stripped in time or not at all. -/
example : let p := ofText "x#b_#a_/f"
    (p.withoutSuffix "b_#a").withoutSuffix "a" = ofText "x/f" ∧
      (p.withoutSuffix "a").withoutSuffix "b_#a" = ofText "x#b_/f" := by decide

end EntryPath
end BundlePackaging
