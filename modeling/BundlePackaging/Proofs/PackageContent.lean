import BundlePackaging.Proofs.Injection
import BundlePackaging.Proofs.Runs
import BundlePackaging.Proofs.SegmentPath
import BundlePackaging.Proofs.Selection

/-!
# What a package contains

A package of a run is the merge of the shard of a point, finished.  At a path that is not that of a
code segment it has an entry just when some module has one there that variant selection leaves and
that is for the package, or when finishing puts one there; and all entries that are united at a path
have the same bytes.

## Main results

* `IsPackage.mem_paths_iff` — the paths of a package, code segments apart.
* `IsPackage.read_eq` — the bytes of a package at a path are those of every entry united there.
* `package_content_exact` — **a package has the entries that are for it, and their bytes.**
* `fallback_missing_iff` — **when a package lacks a file that is for every device.**
-/

namespace BundlePackaging

variable {o : ModuleOrder} {s t : Storage} {shard : Shard} {g : Gathered} {l : List CodeSegment}
  {q : EntryPath} {e : Entry}

/-! ### Merged fragments -/

theorem isDex_of_mem_renumber (h : e ∈ renumber l) : e.path.isDex := by
  obtain ⟨x, -, rfl⟩ := List.mem_map.1 h
  exact EntryPath.isDex_dex (Nat.mod_lt _ (by decide))

/-- The united entries are no code segments. -/
theorem isDex_of_mem_plain (h : (o.gather shard t).1 = .ok g)
    (he : e ∈ g.union.plain.map (·.entry)) : e.path.isDex = false := by
  obtain ⟨c, hc, rfl⟩ := List.mem_map.1 he
  rw [ModuleOrder.plain_of_gather h] at hc
  simpa using (List.mem_filter.1 ((firstsBy_sublist _ _).subset hc)).2

/-- Code segments apart, a merged fragment has the united entries. -/
theorem mem_entries_fragmentWith (h : e.path.isDex = false) :
    e ∈ (g.fragmentWith o (renumber l)).entries ↔ ∃ c ∈ g.union.plain, c.entry = e := by
  change e ∈ g.union.plain.map (·.entry) ++ renumber l ↔ _
  rw [List.mem_append, List.mem_map]
  refine or_iff_left fun hsegment => ?_
  rw [isDex_of_mem_renumber hsegment] at h
  cases h

/-- Code segments apart, a merged fragment has the paths of the fragments of its shard. -/
theorem mem_paths_fragmentWith (h : (o.gather shard t).1 = .ok g) (hq : q.isDex = false) :
    q ∈ (g.fragmentWith o (renumber l)).paths ↔
      ∃ f ∈ shard.fragments, ∃ e ∈ f.entries, e.path = q := by
  have hplain : q ∈ g.union.plain.map (·.entry.path) ↔
      ∃ c ∈ o.shardContributions shard, c.entry.path = q := by
    rw [ModuleOrder.plain_of_gather h, mem_map_firstsBy, List.mem_map]
    constructor
    · rintro ⟨c, hc, rfl⟩
      exact ⟨c, (List.mem_filter.1 hc).1, rfl⟩
    · rintro ⟨c, hc, rfl⟩
      exact ⟨c, List.mem_filter.2 ⟨hc, by rw [hq]; rfl⟩, rfl⟩
  have hpaths : q ∈ (g.fragmentWith o (renumber l)).paths ↔
      q ∈ g.union.plain.map (·.entry.path) := by
    simp only [Fragment.paths, List.mem_map]
    constructor
    · rintro ⟨e, he, rfl⟩
      obtain ⟨c, hc, rfl⟩ := (mem_entries_fragmentWith hq).1 he
      exact ⟨c, hc, rfl⟩
    · rintro ⟨c, hc, rfl⟩
      exact ⟨c.entry, (mem_entries_fragmentWith hq).2 ⟨c, hc, rfl⟩, rfl⟩
  rw [hpaths, hplain]
  constructor
  · rintro ⟨c, hc, rfl⟩
    obtain ⟨f, hf, e, he, rfl⟩ := ModuleOrder.mem_shardContributions.1 hc
    exact ⟨f, hf, e, he, rfl⟩
  · rintro ⟨f, hf, e, he, rfl⟩
    exact ⟨_, ModuleOrder.mem_shardContributions.2 ⟨f, hf, e, he, rfl⟩, rfl⟩

/-- All entries of a shard at a path have the bytes of the one that is kept, code segments apart. -/
theorem read_eq_of_gather {C : Set Content} (hst : t.Alike C s) (hC : ∀ c ∈ shard.contents, c ∈ C)
    (hfree : CollisionFree (readableBytes s shard.contents)) (h : (o.gather shard t).1 = .ok g)
    {x : Contribution} (hx : x ∈ g.union.plain) {f : Fragment} (hf : f ∈ shard.fragments)
    (he : e ∈ f.entries) (hdex : e.path.isDex = false) (hpath : x.entry.path = e.path) :
    x.entry.content.read s = e.content.read s := by
  have hplain := ModuleOrder.plain_of_gather h
  have hcontribution : (⟨f.module, o.position f.module, e⟩ : Contribution) ∈
      plainOf (o.shardContributions shard) :=
    List.mem_filter.2 ⟨ModuleOrder.mem_shardContributions.2 ⟨f, hf, e, he, rfl⟩, by rw [hdex]; rfl⟩
  obtain ⟨y, hy, hypath, hagrees⟩ := ModuleOrder.agrees_of_gather hst hC h _ hcontribution
  -- only one entry is kept at a path
  have hdistinct : (g.union.plain.map (·.entry.path)).Nodup := by
    rw [hplain]
    exact nodup_firstsBy _ _
  obtain rfl := List.inj_on_of_nodup_map hdistinct hx hy (hpath.trans hypath.symm)
  rcases hagrees with hsame | ⟨-, a, b, ha, hb, hdigest⟩
  · rw [hsame]
  · rw [hplain] at hx
    have hkept := (List.mem_filter.1 ((firstsBy_sublist _ _).subset hx)).1
    have hbytes : a ∈ readableBytes s shard.contents :=
      mem_readableBytes.2 ⟨_, ModuleOrder.content_mem_of_shardContributions hkept, ha⟩
    have hbytes' : b ∈ readableBytes s shard.contents :=
      mem_readableBytes.2 ⟨_, Shard.mem_contents.2 ⟨f, hf, e, he, rfl⟩, hb⟩
    rw [ha, hb, hfree a hbytes b hbytes' hdigest]

/-! ### Contents of packages -/

variable {p : Policy} {stamp : Option String} {metadata : BundleMetadata} {workers : Workers}
  {modules : List BundleModule} {packages : List Fragment}

namespace IsPackage

variable {dims : SortedSet Dimension} {restrictV3 : Bool} {point : List Value} {i : ℕ}
  {P : Fragment} {m : BundleModule} {c : Candidate}

theorem get?_targeting_iff
    (hpoint : point ∈ points (observedAxes dims (bundleFragments p modules dims)))
    (h : IsPackage o (standaloneInjectors restrictV3 stamp metadata) t
      (shardAt (bundleFragments p modules dims) i point) g P) {v : Value} :
    P.targeting.get? v.dimension = some v ↔ v ∈ point := by
  obtain ⟨l, rfl⟩ := h.made
  rw [targeting_finished]
  exact get?_eq_some_iff_mem_point hpoint (ModuleOrder.of_gather_eq_ok h.read).2.2.1

/-- The point admits an entry just when the entry is for the package. -/
theorem forall_mem_point_iff_contributes
    (hpoint : point ∈ points (observedAxes dims (bundleFragments p modules dims)))
    (h : IsPackage o (standaloneInjectors restrictV3 stamp metadata) t
      (shardAt (bundleFragments p modules dims) i point) g P) :
    (∀ v, (p.destination m dims c).value? = some v → v ∈ point) ↔
      p.Contributes m dims P.targeting c := by
  rw [← Policy.forall_value?_iff_contributes]
  simp only [h.get?_targeting_iff hpoint]

/-- Code segments apart, a package has the paths of the selected entries that are for it, and those
that the bundle provides. -/
theorem mem_paths_iff (hpoint : point ∈ points (observedAxes dims (bundleFragments p modules dims)))
    (h : IsPackage o (standaloneInjectors restrictV3 stamp metadata) t
      (shardAt (bundleFragments p modules dims) i point) g P) (hq : q.isDex = false) :
    q ∈ P.paths ↔ q ∈ metadata.paths ∨
      ∃ m ∈ modules, ∃ c ∈ p.selected m dims, c.entry.path = q ∧
        p.Contributes m dims P.targeting c := by
  have hcontributes {m : BundleModule} {c : Candidate} :=
    h.forall_mem_point_iff_contributes hpoint (m := m) (c := c)
  obtain ⟨l, rfl⟩ := h.made
  rw [mem_paths_finished, mem_paths_fragmentWith h.read hq, or_comm]
  refine or_congr_right ?_
  constructor
  · rintro ⟨f, hf, e, he, rfl⟩
    obtain ⟨m, hm, c, hc, rfl, hpoint⟩ := mem_entries_shardAt.1 ⟨f, hf, he⟩
    exact ⟨m, hm, c, hc, (p.path_compress c.entry).symm, hcontributes.1 hpoint⟩
  · rintro ⟨m, hm, c, hc, rfl, hfor⟩
    obtain ⟨f, hf, he⟩ := mem_entries_shardAt.2 ⟨m, hm, c, hc, rfl, hcontributes.2 hfor⟩
    exact ⟨f, hf, _, he, p.path_compress c.entry⟩

/-- An entry of a package shows the bytes of every selected entry at its path that is for the
package. -/
theorem read_eq {C : Set Content} (hst : t.Alike C s)
    (hC : ∀ c ∈ (shardAt (bundleFragments p modules dims) i point).contents, c ∈ C)
    (hfree : CollisionFree (readableBytes s
      (shardAt (bundleFragments p modules dims) i point).contents))
    (hpoint : point ∈ points (observedAxes dims (bundleFragments p modules dims)))
    (h : IsPackage o (standaloneInjectors restrictV3 stamp metadata) t
      (shardAt (bundleFragments p modules dims) i point) g P)
    (he : e ∈ P.entries) (hdex : e.path.isDex = false) (hinjected : e.path ∉ injectedPaths)
    (hm : m ∈ modules) (hc : c ∈ p.selected m dims) (hpath : c.entry.path = e.path)
    (hfor : p.Contributes m dims P.targeting c) :
    e.content.read s = c.entry.content.read s := by
  have hadmits := (h.forall_mem_point_iff_contributes hpoint).2 hfor
  obtain ⟨l, rfl⟩ := h.made
  have hprovided : e.path ∉ metadata.paths := fun hq => hinjected (metadata.paths_subset hq)
  -- the entry of the package is the first united at its path, and agrees with all others there
  obtain ⟨x, hx, rfl⟩ := (mem_entries_fragmentWith hdex).1 ((mem_entries_finished hprovided).1 he)
  have hentry : ∃ f ∈ (shardAt (bundleFragments p modules dims) i point).fragments,
      p.compress c.entry ∈ f.entries := mem_entries_shardAt.2 ⟨m, hm, c, hc, rfl, hadmits⟩
  obtain ⟨f, hf, hentry⟩ := hentry
  have hcompress := p.path_compress c.entry
  rw [hpath] at hcompress
  rw [← p.content_compress c.entry]
  exact read_eq_of_gather hst hC hfree h.read hx hf hentry (by rwa [hcompress]) hcompress.symm

end IsPackage

/-! ### Exactness -/

/-- The contents of the entries that some modules offer. -/
def offeredContents (p : Policy) (modules : List BundleModule) (dims : SortedSet Dimension) :
    List Content :=
  modules.flatMap fun m => (p.offered m dims).map (·.entry.content)

theorem contents_subset_offered {dims : SortedSet Dimension} {point : List Value} {i : ℕ}
    (hselected : ∀ m ∈ modules, p.selected m dims = p.offered m dims) :
    ∀ c ∈ (shardAt (bundleFragments p modules dims) i point).contents,
      c ∈ offeredContents p modules dims := by
  intro x hx
  obtain ⟨f, hf, e, he, rfl⟩ := Shard.mem_contents.1 hx
  obtain ⟨m, hm, c, hc, rfl, -⟩ := mem_entries_shardAt.1 ⟨f, hf, he⟩
  rw [hselected m hm] at hc
  rw [p.content_compress]
  exact List.mem_flatMap.2 ⟨m, hm, List.mem_map_of_mem hc⟩

/-- If no suffixes are stripped, every package of a successful run has an entry at a path, those of
code segments and of injected files apart, just when some module offers one there that is for the
package; and the bytes at the path are those of every such entry.  What a module offers are its own
entries and, for a base module without native libraries, the empty ones. -/
theorem package_content_exact (p : Policy) (stamp : Option String) (metadata : BundleMetadata)
    (workers : Workers) (modules : List BundleModule) (s : Storage)
    (htexture : p.stripsSuffix .textureFormat = false)
    (htier : p.stripsSuffix .deviceTier = false)
    (hsteady : ∀ c ∈ offeredContents p modules p.standaloneDimensions, c.Steady s)
    (hfree : CollisionFree (readableBytes s (offeredContents p modules p.standaloneDimensions)))
    {packages : List Fragment}
    (hrun : (generatePackages p stamp metadata workers modules s).result = .ok packages)
    {P : Fragment} (hP : P ∈ packages) {q : EntryPath} (hdex : q.isDex = false)
    (hinjected : q ∉ injectedPaths) :
    (q ∈ P.paths ↔ ∃ m ∈ modules, ∃ c ∈ p.offered m p.standaloneDimensions, c.entry.path = q ∧
      p.Contributes m p.standaloneDimensions P.targeting c) ∧
    (∀ e ∈ P.entries, e.path = q → ∀ m ∈ modules, ∀ c ∈ p.offered m p.standaloneDimensions,
      c.entry.path = q → p.Contributes m p.standaloneDimensions P.targeting c →
        e.content.read s = c.entry.content.read s) ∧
    ∀ m c, c ∈ p.offered m p.standaloneDimensions ↔ (∃ slot ∈ m.slots, slot.candidate = c) ∨
      (m.isBase ∧ .abi ∈ p.standaloneDimensions ∧ m.hasNativeLibraries = false) ∧
        ∃ a ∈ p.placeholderAbis, placeholder a = c := by
  have hselected : ∀ m, p.selected m p.standaloneDimensions =
      p.offered m p.standaloneDimensions := fun m => Policy.selected_eq_offered htexture htier
  let C : Set Content := { c | c ∈ offeredContents p modules p.standaloneDimensions }
  have hC : ∀ i point, ∀ c ∈ (shardAt (bundleFragments p modules p.standaloneDimensions) i
      point).contents, c ∈ C := fun i point c hc =>
    contents_subset_offered (fun m _ => hselected m) c hc
  -- earlier shards may have stored digests, so the shard was read in a storage that is like `s`
  obtain ⟨i, point, hpoint, t, g, hst, hpackage⟩ :=
    isPackage_of_mem_packages (I := (·.Alike C s)) (.refl hsteady)
      (fun i point _ t ht => (ModuleOrder.restsOn_gather (hC i point) ht).2) hrun P hP
  refine ⟨?_, ?_, fun m c => Policy.mem_offered⟩
  · rw [hpackage.mem_paths_iff hpoint hdex]
    have hprovided : q ∉ metadata.paths := fun hq => hinjected (metadata.paths_subset hq)
    simp only [hprovided, false_or, hselected]
  · intro e he hpath m hm c hc hcpath hfor
    obtain rfl := hpath
    have hsub : readableBytes s (shardAt (bundleFragments p modules p.standaloneDimensions) i
        point).contents ⊆ readableBytes s (offeredContents p modules p.standaloneDimensions) := by
      intro bytes hbytes
      obtain ⟨c, hc, hread⟩ := mem_readableBytes.1 hbytes
      exact mem_readableBytes.2 ⟨c, hC i point c hc, hread⟩
    exact hpackage.read_eq hst (hC i point) (hfree.subset hsub) hpoint he hdex hinjected hm
      (by rwa [hselected]) hcpath hfor

theorem exists_packages_nativeBundle :
    ∃ P P' : Fragment,
      (generatePackages nativePolicy none {} .shared nativeBundle {}).result = .ok [P, P'] ∧
      P.targeting = .ofValue (.abi .x86) ∧ P'.targeting = .ofValue (.abi .mips) := by
  have hmade : (generatePackages nativePolicy none {} .shared nativeBundle
      {}).result.toOption.map (List.map (·.targeting)) =
        some [.ofValue (.abi .x86), .ofValue (.abi .mips)] := by decide +kernel
  obtain ⟨packages, hrun, htargetings⟩ := exists_packages_of_map_eq hmade
  obtain ⟨P, rest, rfl, hx86, hrest⟩ := List.map_eq_cons_iff.1 htargetings
  obtain ⟨P', rest, rfl, hmips, hnil⟩ := List.map_eq_cons_iff.1 hrest
  obtain rfl := List.map_eq_nil_iff.1 hnil
  exact ⟨P, P', hrun, hx86, hmips⟩

/-- The bundle has two packages.  The native library for one architecture is in its package, with
its bytes, and not in the other. -/
theorem package_content_nativeBundle :
    ∃ P P' : Fragment,
      (generatePackages nativePolicy none {} .shared nativeBundle {}).result = .ok [P, P'] ∧
      P.targeting = .ofValue (.abi .x86) ∧ P'.targeting = .ofValue (.abi .mips) ∧
      ⟨"lib/x86/a.so"⟩ ∈ P.paths ∧ ⟨"lib/x86/a.so"⟩ ∉ P'.paths ∧
      ∀ e ∈ P.entries, e.path = ⟨"lib/x86/a.so"⟩ → e.content.read {} = .ok [2] := by
  obtain ⟨P, P', hrun, hx86, hmips⟩ := exists_packages_nativeBundle
  have hexact {Q : Fragment} (hQ : Q ∈ [P, P']) :=
    package_content_exact nativePolicy none {} .shared nativeBundle {} rfl rfl
      (fun _ _ => Content.steady_of_digest?_eq_none rfl) (by decide +kernel) hrun hQ
      (q := ⟨"lib/x86/a.so"⟩) (by decide +kernel) (by decide +kernel)
  obtain ⟨hpaths, hbytes, -⟩ := hexact (Q := P) (by simp)
  obtain ⟨hpaths', -, -⟩ := hexact (Q := P') (by simp)
  rw [hx86] at hpaths hbytes
  rw [hmips] at hpaths'
  -- the only entry at the path is for the one architecture
  obtain ⟨m, hm, c, hc, hpath, hfor, hread⟩ : ∃ m ∈ nativeBundle,
      ∃ c ∈ nativePolicy.offered m nativePolicy.standaloneDimensions,
        c.entry.path = ⟨"lib/x86/a.so"⟩ ∧
        nativePolicy.Contributes m nativePolicy.standaloneDimensions (.ofValue (.abi .x86)) c ∧
        (c.entry.content.read {}).toOption = some [2] := by decide
  have hnone : ¬ ∃ m ∈ nativeBundle,
      ∃ c ∈ nativePolicy.offered m nativePolicy.standaloneDimensions,
        c.entry.path = ⟨"lib/x86/a.so"⟩ ∧
        nativePolicy.Contributes m nativePolicy.standaloneDimensions (.ofValue (.abi .mips)) c := by
    decide
  refine ⟨P, P', hrun, hx86, hmips, hpaths.2 ⟨m, hm, c, hc, hpath, hfor⟩, mt hpaths'.1 hnone, ?_⟩
  intro e he hepath
  rw [hbytes e he hepath m hm c hc hpath hfor]
  cases hresult : c.entry.content.read {} with
  | error cause =>
    rw [hresult] at hread
    cases hread
  | ok bytes =>
    rw [hresult] at hread
    rw [Option.some.inj hread]

/-! ### Fallbacks -/

/-- A package of a successful run lacks an entry that is for every device just when the bundle
provides nothing at its path, an entry of a chosen variant has replaced it, and no module selects an
entry at its path that is for the package. -/
theorem fallback_missing_iff
    (hrun : (generatePackages p stamp metadata workers modules s).result = .ok packages)
    {P : Fragment} (hP : P ∈ packages) {m : BundleModule} (hm : m ∈ modules) {c : Candidate}
    (hc : c ∈ m.candidates) (huntargeted : c.targeting = .master)
    (hdex : c.entry.path.isDex = false) :
    c.entry.path ∉ P.paths ↔ c.entry.path ∉ metadata.paths ∧
      c.entry.path ∈ p.variantPaths m p.standaloneDimensions ∧
      ∀ n ∈ modules, ∀ b ∈ p.selected n p.standaloneDimensions, b.entry.path = c.entry.path →
        ¬ p.Contributes n p.standaloneDimensions P.targeting b := by
  obtain ⟨i, point, hpoint, t, g, -, hpackage⟩ :=
    isPackage_of_mem_packages (I := fun _ => True) trivial (fun _ _ _ _ _ => trivial) hrun P hP
  rw [hpackage.mem_paths_iff hpoint hdex]
  constructor
  · intro hlacks
    obtain ⟨hprovided, hnone⟩ := not_or.1 hlacks
    have hnone : ∀ n ∈ modules, ∀ b ∈ p.selected n p.standaloneDimensions,
        b.entry.path = c.entry.path → ¬ p.Contributes n p.standaloneDimensions P.targeting b :=
      fun n hn b hb hpath hfor => hnone ⟨n, hn, b, hb, hpath, hfor⟩
    refine ⟨hprovided, ?_, hnone⟩
    -- a fallback that is not replaced is for every package
    by_contra hkept
    have hselected := Policy.mem_selected_of_fallback (List.mem_append_left _ hc) huntargeted hkept
    refine hnone m hm c hselected rfl (.inr (.inl fun d _ => ?_))
    rw [huntargeted, Targeting.get?_master]
  · rintro ⟨hprovided, -, hnone⟩ (hq | ⟨n, hn, b, hb, hpath, hfor⟩)
    · exact hprovided hq
    · exact hnone n hn b hb hpath hfor

/-- Texture variants are stripped to one format, and packages are told apart by architecture. -/
def strippingPolicy : Policy :=
  { dimensions := .ofList [.abi]
    suffixPolicies := .ofList [(.textureFormat, ⟨true, some "astc"⟩)] }

/-- The path of a texture that is for every device. -/
def texturePath : EntryPath := ⟨"assets/textures/a.ktx"⟩

/-- A texture for every device, a variant of it for one architecture, and a native library for
another. -/
def textureModule : BundleModule :=
  { name := "base", kind := .base, manifest := ⟨"app", ∅, ∅⟩
    slots := [⟨⟨texturePath, ⟨1, .memory [1]⟩, .compressed⟩, none⟩,
      ⟨⟨⟨"assets/textures#tcf_astc/a.ktx"⟩, ⟨2, .memory [2]⟩, .compressed⟩,
        some ⟨{ abi := some .x86, textureFormat := some .astc }, none⟩⟩,
      ⟨⟨⟨"lib/arm64-v8a/a.so"⟩, ⟨3, .memory [3]⟩, .compressed⟩,
        some ⟨.ofValue (.abi .arm64V8a), none⟩⟩]
    distinct := by decide }

/-- The texture for every device. -/
def textureFallback : Candidate := ⟨⟨texturePath, ⟨1, .memory [1]⟩, .compressed⟩, .master⟩

theorem exists_package_without_texture :
    ∃ packages, (generatePackages strippingPolicy none {} .shared [textureModule] {}).result =
      .ok packages ∧ ∃ P ∈ packages, texturePath ∉ P.paths := by
  have hmade : (generatePackages strippingPolicy none {} .shared [textureModule]
      {}).result.toOption.map (List.any · fun P => texturePath ∉ P.paths) = some true := by
    decide +kernel
  obtain ⟨packages, hrun, hlacks⟩ := exists_packages_of_map_eq hmade
  obtain ⟨P, hP, hlacks⟩ := List.any_eq_true.1 hlacks
  exact ⟨packages, hrun, P, hP, by simpa using hlacks⟩

/-- The package for the other architecture has neither the texture nor its variant. -/
theorem fallback_missing_textureModule :
    ∃ packages, (generatePackages strippingPolicy none {} .shared [textureModule] {}).result =
        .ok packages ∧ ∃ P ∈ packages, texturePath ∉ P.paths ∧
      texturePath ∈
        strippingPolicy.variantPaths textureModule strippingPolicy.standaloneDimensions ∧
      ∀ n ∈ [textureModule], ∀ b ∈ strippingPolicy.selected n strippingPolicy.standaloneDimensions,
        b.entry.path = texturePath →
          ¬ strippingPolicy.Contributes n strippingPolicy.standaloneDimensions P.targeting b := by
  obtain ⟨packages, hrun, P, hP, hlacks⟩ := exists_package_without_texture
  obtain ⟨-, hreplaced, hnone⟩ := (fallback_missing_iff hrun hP List.mem_cons_self
    (c := textureFallback) List.mem_cons_self rfl (by decide +kernel)).1 hlacks
  exact ⟨packages, hrun, P, hP, hlacks, hreplaced, hnone⟩

/-- A fallback that a variant replaces is missing in the packages that the variant is not for. -/
theorem not_forall_fallback_present :
    ¬ ∀ (p : Policy) (stamp : Option String) (metadata : BundleMetadata) (workers : Workers)
      (modules : List BundleModule) (s : Storage) (packages : List Fragment),
      (generatePackages p stamp metadata workers modules s).result = .ok packages →
        ∀ m ∈ modules, ∀ c ∈ m.candidates, c.targeting = .master → c.entry.path.isDex = false →
          ∀ P ∈ packages, c.entry.path ∈ P.paths := by
  intro h
  obtain ⟨packages, hrun, P, hP, hlacks⟩ := exists_package_without_texture
  exact hlacks (h strippingPolicy none {} .shared [textureModule] {} packages hrun textureModule
    List.mem_cons_self textureFallback List.mem_cons_self rfl (by decide +kernel) P hP)

end BundlePackaging
