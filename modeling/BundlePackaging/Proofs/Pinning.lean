import BundlePackaging.Proofs.EmittedPaths

/-!
# Which entries stay in the master fragment

The configuration of an entry stands under the path that the entry has in its module.  An entry of a
chosen variant is moved before its destination is looked up, and the look-up asks for the path at
which the entry ends up.  So the pinning that counts is that of the entry, if there is one, that the
module has at this path: a moved entry loses its own pinning and takes over that of the fallback it
replaces.

## Main definitions

* `Policy.pinsSlot` — the resource that an entry's own configuration names is pinned.
* `Policy.survivors` — the entries of a module that selection leaves, with what becomes of each.

## Main results

* `Policy.pinsPath_iff` — the pinning that the look-up finds.
* `Policy.entries_master` — the entries of the master fragment, module entry by module entry.
* `master_entries_eq_of_final_path` — **the pinning that counts is that of the final path.**
* `not_forall_pinned_by_own_configuration` — it need not be that of the entry itself.
-/

namespace BundlePackaging

variable {p : Policy} {m : BundleModule} {dims : SortedSet Dimension} {s : Slot} {q : EntryPath}

/-! ### Configurations -/

theorem BundleModule.config?_of_mem (hs : s ∈ m.slots) : m.config? s.entry.path = s.config := by
  unfold config?
  cases hfind : m.slots.find? fun t => t.entry.path = s.entry.path with
  | none =>
    have hnone := List.find?_eq_none.1 hfind s hs
    simp at hnone
  | some t =>
    have hpath : t.entry.path = s.entry.path := by simpa using List.find?_some hfind
    rw [List.inj_on_of_nodup_map m.distinct (List.mem_of_find?_eq_some hfind) hs hpath]
    rfl

theorem BundleModule.config?_eq_none (hq : q ∉ m.slots.map (·.entry.path)) :
    m.config? q = none := by
  have hfind : m.slots.find? (fun t => t.entry.path = q) = none := by
    rw [List.find?_eq_none]
    intro t ht hpath
    exact hq (List.mem_map.2 ⟨t, ht, by simpa using hpath⟩)
  unfold config?
  rw [hfind]
  rfl

namespace Policy

/-- Whether the resource that the configuration of a slot names is pinned. -/
def pinsSlot (p : Policy) (m : BundleModule) (s : Slot) : Bool :=
  (s.config.bind (·.resource)).any fun r => p.pins r m.isBase

theorem pinsPath_of_mem (hs : s ∈ m.slots) : p.pinsPath m s.entry.path = p.pinsSlot m s := by
  unfold pinsPath pinsSlot
  rw [m.config?_of_mem hs]

/-- A path counts as pinned when the module has a pinned entry there. -/
theorem pinsPath_iff : p.pinsPath m q ↔ ∃ t ∈ m.slots, t.entry.path = q ∧ p.pinsSlot m t := by
  constructor
  · intro hpins
    by_cases hq : q ∈ m.slots.map (·.entry.path)
    · obtain ⟨t, ht, rfl⟩ := List.mem_map.1 hq
      rw [pinsPath_of_mem ht] at hpins
      exact ⟨t, ht, rfl, hpins⟩
    · unfold pinsPath at hpins
      rw [m.config?_eq_none hq] at hpins
      cases hpins
  · rintro ⟨t, ht, rfl, hpins⟩
    rwa [pinsPath_of_mem ht]

/-! ### Survivors -/

/-- The candidate that variant selection makes of one that a module offers, if it stays. -/
def survivor? (p : Policy) (m : BundleModule) (dims : SortedSet Dimension) (c : Candidate) :
    Option Candidate :=
  (c.resolve p.variantChoices).survivor? (p.variantPaths m dims)

theorem selected_eq : p.selected m dims = (p.offered m dims).filterMap (p.survivor? m dims) := by
  unfold selected selectVariants
  rw [List.filterMap_map]
  rfl

/-- The entries of a module that variant selection leaves, with what becomes of each. -/
def survivors (p : Policy) (m : BundleModule) (dims : SortedSet Dimension) :
    List (Slot × Candidate) :=
  m.slots.filterMap fun s => (p.survivor? m dims s.candidate).map (s, ·)

theorem mem_survivors {c : Candidate} : (s, c) ∈ p.survivors m dims ↔
    s ∈ m.slots ∧ p.survivor? m dims s.candidate = some c := by
  unfold survivors
  simp only [List.mem_filterMap, Option.map_eq_some_iff, Prod.mk.injEq]
  constructor
  · rintro ⟨t, ht, b, hb, rfl, rfl⟩
    exact ⟨ht, hb⟩
  · rintro ⟨hs, hc⟩
    exact ⟨s, hs, c, hc, rfl, rfl⟩

/-- An entry that remains has lost its targeting along the dimensions of the choices, and the
suffixes of the choices that are about it. -/
theorem of_survivor?_eq_some {b c : Candidate} (h : p.survivor? m dims b = some c) :
    c.entry = b.entry.moveTo (b.strippedPath p.variantChoices) ∧
      ∀ d, c.targeting.get? d =
        if d ∈ p.variantChoices.map (·.dimension) then none else b.targeting.get? d := by
  unfold survivor? at h
  cases hres : b.resolve p.variantChoices with
  | dropped path value =>
    rw [hres] at h
    cases h
  | kept b' isVariant =>
    rw [hres] at h
    obtain ⟨htargeting, hentry, -⟩ := Candidate.of_resolveFrom_eq_kept
      nodup_dimensions_variantChoices hres
    have hsame : b' = c := by
      simp only [Resolution.survivor?] at h
      split at h
      · cases h
      · exact Option.some.inj h
    rw [← hsame]
    exact ⟨hentry, htargeting⟩

theorem suffixKey?_of_mem_variantChoices {r : VariantChoice} (h : r ∈ p.variantChoices) :
    r.dimension.suffixKey? = some r.key := by
  unfold variantChoices at h
  obtain ⟨d, -, h⟩ := List.mem_filterMap.1 h
  simp only [Option.bind_eq_bind, Option.bind_eq_some_iff, Option.ite_none_right_eq_some,
    Option.some.injEq] at h
  obtain ⟨rule, -, key, hkey, -, rfl⟩ := h
  exact hkey

/-- An empty native library remains at its path and for its architecture. -/
theorem of_survivor?_placeholder {a : Abi} {c : Candidate}
    (h : p.survivor? m dims (placeholder a) = some c) :
    c.entry.path = placeholderPath a ∧ c.targeting.get? .abi = some (.abi a) := by
  obtain ⟨hentry, htargeting⟩ := of_survivor?_eq_some h
  have habi : ∀ r ∈ p.variantChoices, r.dimension ≠ .abi := by
    intro r hr habi
    have hkey := suffixKey?_of_mem_variantChoices hr
    rw [habi] at hkey
    cases hkey
  have hunmoved : p.variantChoices.filter (placeholder a).concernedBy = [] := by
    rw [List.filter_eq_nil_iff]
    intro r hr hconcern
    obtain ⟨v, hv⟩ := Option.isSome_iff_exists.1 hconcern
    exact habi r hr (Targeting.get?_ofValue.1 hv).2.symm
  constructor
  · rw [hentry, Candidate.strippedPath, hunmoved]
    rfl
  · rw [htargeting, if_neg]
    · rfl
    · intro hmem
      obtain ⟨r, hr, habi'⟩ := List.mem_map.1 hmem
      exact habi r hr habi'

/-! ### The master fragment -/

theorem value?_destination_eq_none {c : Candidate} : (p.destination m dims c).value? = none ↔
    p.pinsPath m c.entry.path ∨ ∀ d ∈ dims.toList, c.targeting.get? d = none := by
  unfold destination
  split
  · next hpins => simp [hpins, Destination.value?]
  · next hpins =>
    rw [← List.findSome?_eq_none_iff]
    cases dims.toList.findSome? c.targeting.get? with
    | none => simp [Destination.value?]
    | some v => simp [Destination.value?, hpins]

/-- The empty native libraries go to the fragments of their architectures. -/
theorem value?_destination_placeholder {b c : Candidate} (hb : b ∈ p.placeholders m dims)
    (h : p.survivor? m dims b = some c) : (p.destination m dims c).value? ≠ none := by
  have hpath := path_placeholder_notMem hb
  obtain ⟨hadds, a, rfl⟩ := mem_placeholders hb
  obtain ⟨hcpath, htargeting⟩ := of_survivor?_placeholder h
  rw [Ne, value?_destination_eq_none]
  rintro (hpins | huntargeted)
  · obtain ⟨t, ht, htpath, -⟩ := pinsPath_iff.1 hpins
    exact hpath (List.mem_map.2 ⟨t, ht, htpath.trans hcpath⟩)
  · have habi : Dimension.abi ∈ dims := by
      unfold addsPlaceholders at hadds
      simp only [Bool.and_eq_true, decide_eq_true_eq] at hadds
      exact hadds.1.1.2
    rw [huntargeted .abi habi] at htargeting
    cases htargeting

/-- The master fragment has the entries of the module that go to no value, in their order. -/
theorem entries_master : entriesAt (p.placements m dims) none =
    ((p.survivors m dims).filter fun x => (p.destination m dims x.2).value? = none).map
      fun x => p.compress x.2.entry := by
  have hplaceholders : ((p.placeholders m dims).filterMap (p.survivor? m dims)).filter
      (fun c => (p.destination m dims c).value? = none) = [] := by
    rw [List.filter_eq_nil_iff]
    intro c hc hnone
    obtain ⟨b, hb, hbc⟩ := List.mem_filterMap.1 hc
    exact value?_destination_placeholder hb hbc (by simpa using hnone)
  have hslots : m.candidates.filterMap (p.survivor? m dims) =
      (p.survivors m dims).map Prod.snd := by
    unfold survivors BundleModule.candidates
    rw [List.filterMap_map, List.map_filterMap]
    refine List.filterMap_congr fun s _ => ?_
    rw [Option.map_map]
    exact Option.map_id.symm ▸ rfl
  unfold entriesAt placements
  rw [selected_eq, offered, List.filterMap_append, hslots, List.map_append, List.filter_append,
    List.map_append]
  have hnone : ((((p.placeholders m dims).filterMap (p.survivor? m dims)).map
      fun c => (p.compress c.entry, p.destination m dims c)).filter
        fun e => e.2.value? = none) = [] := by
    rw [List.filter_map, List.map_eq_nil_iff]
    exact hplaceholders
  rw [hnone, List.map_nil, List.append_nil, List.map_map, List.filter_map, List.map_map]
  rfl

end Policy

/-- The entries of the master fragment are those that have no value along the dimensions once the
choices are made, and those that end up at the path of an entry whose own configuration is pinned.
For an entry that is not moved this entry is the entry itself. -/
theorem master_entries_eq_of_final_path (p : Policy) (m : BundleModule)
    (dims : SortedSet Dimension) :
    ((p.partition m dims).head?.map (·.entries) = some
      (((p.survivors m dims).filter fun x =>
        (∃ t ∈ m.slots, t.entry.path = x.2.entry.path ∧ p.pinsSlot m t) ∨
          ∀ d ∈ dims.toList, x.2.targeting.get? d = none).map fun x => p.compress x.2.entry)) ∧
    ∀ x ∈ p.survivors m dims,
      x.2.entry = x.1.entry.moveTo (x.1.candidate.strippedPath p.variantChoices) ∧
      (∀ d, x.2.targeting.get? d =
        if d ∈ p.variantChoices.map (·.dimension) then none
        else x.1.candidate.targeting.get? d) ∧
      (x.2.entry.path = x.1.entry.path →
        ((∃ t ∈ m.slots, t.entry.path = x.2.entry.path ∧ p.pinsSlot m t) ↔
          p.pinsSlot m x.1)) := by
  constructor
  · change some (Policy.entriesAt (p.placements m dims) none) = _
    rw [Policy.entries_master]
    congr 2
    refine List.filter_congr fun x _ => ?_
    rw [decide_eq_decide, Policy.value?_destination_eq_none, Policy.pinsPath_iff]
  · rintro ⟨s, c⟩ hx
    obtain ⟨hs, hc⟩ := Policy.mem_survivors.1 hx
    obtain ⟨hentry, htargeting⟩ := Policy.of_survivor?_eq_some hc
    refine ⟨hentry, htargeting, fun hpath => ?_⟩
    rw [← Policy.pinsPath_iff, hpath, Policy.pinsPath_of_mem hs]

/-- Texture variants are stripped to one format, and one resource is pinned. -/
def pinningPolicy : Policy :=
  { pinnedIds := .ofList [⟨1⟩], suffixPolicies := .ofList [(.textureFormat, ⟨true, some "astc"⟩)] }

/-- A targeting at a texture format and a density. -/
def denseTexture : Targeting :=
  (Targeting.ofValue (.textureFormat .astc)).set (.screenDensity .hdpi)

/-- A drawing of the pinned resource, which no choice is about. -/
def pinnedDrawing : Slot :=
  ⟨⟨⟨"res/c"⟩, ⟨4, .memory [4]⟩, .compressed⟩,
    some ⟨.ofValue (.screenDensity .hdpi), some ⟨⟨1⟩, "c"⟩⟩⟩

/-- A pinned variant without a fallback, a pinned fallback, the variant that replaces it, which is
not pinned, and a pinned drawing. -/
def pinnedTextures : BundleModule :=
  { name := "base", kind := .base, manifest := ⟨"app", ∅, ∅⟩
    slots := [⟨⟨⟨"assets/a#tcf_astc/x"⟩, ⟨1, .memory [1]⟩, .compressed⟩,
        some ⟨denseTexture, some ⟨⟨1⟩, "a"⟩⟩⟩,
      ⟨⟨⟨"assets/b/y"⟩, ⟨2, .memory [2]⟩, .compressed⟩, some ⟨.master, some ⟨⟨1⟩, "b"⟩⟩⟩,
      ⟨⟨⟨"assets/b#tcf_astc/y"⟩, ⟨3, .memory [3]⟩, .compressed⟩, some ⟨denseTexture, none⟩⟩,
      pinnedDrawing]
    distinct := by decide }

theorem pinnedTextures_master :
    ((pinningPolicy.partition pinnedTextures (.ofList [.screenDensity])).head?.map (·.entries) =
      some [⟨⟨"assets/b/y"⟩, ⟨3, .memory [3]⟩, .compressed⟩, pinnedDrawing.entry]) ∧
    (pinnedDrawing, pinnedDrawing.candidate) ∈
      pinningPolicy.survivors pinnedTextures (.ofList [.screenDensity]) ∧
    ((∃ t ∈ pinnedTextures.slots, t.entry.path = pinnedDrawing.entry.path ∧
      pinningPolicy.pinsSlot pinnedTextures t) ↔
        pinningPolicy.pinsSlot pinnedTextures pinnedDrawing) := by
  obtain ⟨hmaster, hsurvivors⟩ :=
    master_entries_eq_of_final_path pinningPolicy pinnedTextures (.ofList [.screenDensity])
  have hdrawing : (pinnedDrawing, pinnedDrawing.candidate) ∈
      pinningPolicy.survivors pinnedTextures (.ofList [.screenDensity]) :=
    List.mem_of_getElem? (i := 2) rfl
  obtain ⟨-, -, hpinned⟩ := hsurvivors _ hdrawing
  exact ⟨hmaster.trans rfl, hdrawing, hpinned rfl⟩

/-- The pinned variant goes to the fragment of its density, and the variant that is not pinned stays
in the master fragment, where its fallback was pinned. -/
theorem not_forall_pinned_by_own_configuration :
    ¬ ∀ (p : Policy) (m : BundleModule) (dims : SortedSet Dimension),
      (p.partition m dims).head?.map (·.entries) = some
        (((p.survivors m dims).filter fun x =>
          p.pinsSlot m x.1 ∨ ∀ d ∈ dims.toList, x.2.targeting.get? d = none).map
            fun x => p.compress x.2.entry) := by
  intro h
  have hmaster :
      (pinningPolicy.partition pinnedTextures (.ofList [.screenDensity])).head?.map (·.paths) =
        some [⟨"assets/b/y"⟩, ⟨"res/c"⟩] := rfl
  have hown := congrArg (Option.map (List.map Entry.path))
    (h pinningPolicy pinnedTextures (.ofList [.screenDensity]))
  rw [Option.map_map] at hown
  have hpinned : (some [⟨"assets/b/y"⟩, ⟨"res/c"⟩] : Option (List EntryPath)) =
      some [⟨"assets/a/x"⟩, ⟨"res/c"⟩] := by
    rw [← hmaster]
    exact hown.trans rfl
  exact absurd hpinned (by decide)

end BundlePackaging
