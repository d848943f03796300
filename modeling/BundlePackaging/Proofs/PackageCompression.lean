import BundlePackaging.Proofs.ModulePartition
import BundlePackaging.Proofs.PackageCode

/-!
# How the entries of a package are stored

Whether an entry is stored compressed is decided when its module is cut into fragments, on the path
that it has by then.  Merging keeps one of several entries, and with it the compression of that one:
at a path the first that is united, of code segments with the same bytes the first in the order of
modules and numbers.  So a package stores an entry as the policy asks for, and where the policy asks
for nothing as the first entry that contributes is declared.

The entries that contribute are listed module by module, in each module by the numbers of code
segments.  The fragments of a module have them in another order, which makes no difference at a path
since a module emits one entry there.

## Main definitions

* `Policy.selections` — the entries of a module with what variant selection makes of them.
* `Policy.contributors`, `contributors` — the entries that are for the packages with a targeting.
* `Entry.isMadeOf` — whether an entry of a package is made of another.

## Main results

* `Policy.compression_compress` — when the policy stores an entry as it is.
* `Policy.moduleEntries_perm`, `Policy.moduleCode_eq` — the entries and the code segments of a
  module for a point, in terms of those that contribute.
* `package_compression_exact` — **which entries of a package are stored uncompressed.**
-/

namespace BundlePackaging

variable {p : Policy} {m : BundleModule} {modules : List BundleModule} {dims : SortedSet Dimension}
  {point : List Value} {t : Targeting} {s : Storage} {i : ℕ} {g : Gathered} {e : Entry}
  {q : EntryPath}

/-! ### The policy -/

/-- Code segments are no native libraries. -/
theorem EntryPath.isNativeLibrary_of_isDex (h : q.isDex) : q.isNativeLibrary = false := by
  obtain ⟨n, hn⟩ := Option.isSome_iff_exists.1 h
  obtain ⟨digits, -, hchars⟩ := dexIndex?_eq_some.1 hn
  have hbelow : q.isBelow "lib" = false := by
    unfold isBelow
    rw [hchars]
    rfl
  rw [isNativeLibrary, hbelow, Bool.false_and]

namespace Policy

/-- An entry is stored as it is if the policy asks for it along with all of its kind, or else if it
was declared so. -/
theorem compression_compress (p : Policy) (e : Entry) :
    (p.compress e).compression = .uncompressed ↔
      e.path.isDex ∧ p.splitDexCompression ∨
      e.path.isNativeLibrary ∧ p.splitNativeLibraryCompression ∧
        p.installableOnExternalStorage = false ∨
      e.compression = .uncompressed := by
  unfold compress
  split
  · next hasked =>
    refine iff_of_true rfl ?_
    simp only [uncompressesNativeLibraries, uncompressesDex, Bool.or_eq_true, Bool.and_eq_true,
      Bool.not_eq_true'] at hasked
    rcases hasked with hnative | hdex
    · exact .inr (.inl hnative)
    · exact .inl hdex
  · next hasked =>
    simp only [uncompressesNativeLibraries, uncompressesDex, Bool.or_eq_true, Bool.and_eq_true,
      Bool.not_eq_true', not_or] at hasked
    obtain ⟨hnative, hdex⟩ := hasked
    constructor
    · exact fun h => .inr (.inr h)
    · rintro (h | h | h)
      · exact absurd h hdex
      · exact absurd h hnative
      · exact h

/-! ### Entries that contribute -/

/-- The entries that a module offers and variant selection leaves, each as it is offered and as it
is left. -/
def selections (p : Policy) (m : BundleModule) (dims : SortedSet Dimension) :
    List (Candidate × Candidate) :=
  (p.offered m dims).filterMap fun b => (p.survivor? m dims b).map (b, ·)

/-- The selected entries that are for the packages with a targeting, code segments in the order of
their numbers. -/
def contributors (p : Policy) (m : BundleModule) (dims : SortedSet Dimension) (t : Targeting) :
    List (Candidate × Candidate) :=
  sortBy (fun x y => x.2.entry.path.dexIndex?.getD 0 ≤ y.2.entry.path.dexIndex?.getD 0)
    ((p.selections m dims).filter fun x =>
      (p.destination m dims x.2).value?.all fun v => t.get? v.dimension = some v)

theorem mem_selections {x : Candidate × Candidate} : x ∈ p.selections m dims ↔
    x.1 ∈ p.offered m dims ∧ p.survivor? m dims x.1 = some x.2 := by
  obtain ⟨b, c⟩ := x
  unfold selections
  simp only [List.mem_filterMap, Option.map_eq_some_iff, Prod.mk.injEq]
  constructor
  · rintro ⟨b', hb, c', hc, rfl, rfl⟩
    exact ⟨hb, hc⟩
  · rintro ⟨hb, hc⟩
    exact ⟨b, hb, c, hc, rfl, rfl⟩

theorem map_snd_selections (p : Policy) (m : BundleModule) (dims : SortedSet Dimension) :
    (p.selections m dims).map (·.2) = p.selected m dims := by
  unfold selections
  rw [List.map_filterMap, selected_eq]
  refine List.filterMap_congr fun b _ => ?_
  rw [Option.map_map]
  exact Option.map_id'

/-- The contributors are the entries that are for the packages with the targeting. -/
theorem mem_contributors {x : Candidate × Candidate} : x ∈ p.contributors m dims t ↔
    x.1 ∈ p.offered m dims ∧ p.survivor? m dims x.1 = some x.2 ∧ p.Contributes m dims t x.2 := by
  unfold contributors
  rw [(sortBy_perm _ _).mem_iff, List.mem_filter, mem_selections, and_assoc,
    ← forall_value?_iff_contributes]
  simp only [Option.all_eq_true, decide_eq_true_eq]

/-- Variant selection does not change how an entry is stored. -/
theorem compression_of_mem_contributors {x : Candidate × Candidate}
    (h : x ∈ p.contributors m dims t) : x.2.entry.compression = x.1.entry.compression := by
  rw [(of_survivor?_eq_some (mem_contributors.1 h).2.1).1]
  rfl

/-! ### Entries for a point -/

/-- The entries of a module that apply to a point are those of its master fragment and those for
the values of the point. -/
theorem moduleEntries_eq (p : Policy) (m : BundleModule) (dims : SortedSet Dimension)
    (point : List Value) :
    p.moduleEntries m dims point = (p.candidatesAt m dims none ++
      ((occurringValues (p.placements m dims)).toList.filter (· ∈ point)).flatMap fun v =>
        p.candidatesAt m dims (some v)).map fun c => p.compress c.entry := by
  have happlies (v : Value) (es : List Entry) :
      (Fragment.ofValue m.name m.manifest v es).appliesTo point = decide (v ∈ point) := by
    rw [Bool.eq_iff_iff, appliesTo_ofValue, decide_eq_true_eq]
  unfold moduleEntries
  rw [partition_eq, List.filter_cons, if_pos appliesTo_ofMaster, List.filter_map,
    List.flatMap_cons, List.flatMap_map, List.map_append, List.map_flatMap]
  simp only [Function.comp_def, happlies]
  rfl

/-- What goes to the master fragment or to a value of a point are the selected entries whose
destination the point admits, each once. -/
theorem candidatesAt_point_perm (p : Policy) (m : BundleModule) (dims : SortedSet Dimension)
    (point : List Value) :
    (p.candidatesAt m dims none ++
      ((occurringValues (p.placements m dims)).toList.filter (· ∈ point)).flatMap fun v =>
        p.candidatesAt m dims (some v)).Perm
      ((p.selected m dims).filter fun c => (p.destination m dims c).value?.all (· ∈ point)) := by
  let admits (c : Candidate) : Bool := (p.destination m dims c).value?.all (· ∈ point)
  have hnodup : ((occurringValues (p.placements m dims)).toList.filter (· ∈ point)).Nodup :=
    (occurringValues (p.placements m dims)).nodup.filter _
  have hkeys : ∀ c ∈ (p.selected m dims).filter admits, ∀ v,
      (p.destination m dims c).value? = some v →
        v ∈ (occurringValues (p.placements m dims)).toList.filter (· ∈ point) := by
    intro c hc v hv
    obtain ⟨hc, hadmits⟩ := List.mem_filter.1 hc
    simp only [admits, hv, Option.all_some] at hadmits
    exact List.mem_filter.2 ⟨SortedSet.mem_def.1 (mem_occurringValues.2 ⟨c, hc, hv⟩), hadmits⟩
  have hgroup (d : Option Value) (hd : d.all (· ∈ point)) :
      ((p.selected m dims).filter admits).filter (fun c => (p.destination m dims c).value? = d) =
        p.candidatesAt m dims d := by
    unfold candidatesAt
    rw [List.filter_filter]
    refine List.filter_congr fun c _ => ?_
    by_cases hc : (p.destination m dims c).value? = d
    · simp [admits, hc, hd]
    · simp [hc]
  have hgroups := groups_perm (fun c => (p.destination m dims c).value?) hnodup hkeys
  rw [hgroup none rfl] at hgroups
  refine .trans (.of_eq (congrArg _ (List.flatMap_congr fun v hv => ?_))) hgroups
  exact (hgroup (some v) (List.mem_filter.1 hv).2).symm

/-- The entries of a module that apply to a point are its contributors, with the compression that
the policy asks for. -/
theorem moduleEntries_perm (hpoint : ∀ v, t.get? v.dimension = some v ↔ v ∈ point) :
    (p.moduleEntries m dims point).Perm
      ((p.contributors m dims t).map fun x => p.compress x.2.entry) := by
  have hcontributors : ((p.contributors m dims t).map fun x => p.compress x.2.entry).Perm
      (((p.selected m dims).filter fun c =>
        (p.destination m dims c).value?.all (· ∈ point)).map fun c => p.compress c.entry) := by
    rw [← map_snd_selections, List.filter_map, List.map_map]
    unfold contributors
    simp only [hpoint]
    exact (sortBy_perm _ _).map _
  rw [moduleEntries_eq]
  exact ((p.candidatesAt_point_perm m dims point).map _).trans hcontributors.symm

/-- If a module emits no two entries at one path, its contributors have distinct paths. -/
theorem nodup_paths_contributors (h : ((p.partition m dims).flatMap (·.paths)).Nodup)
    (t : Targeting) : ((p.contributors m dims t).map (·.2.entry.path)).Nodup := by
  have hselected : ((p.selections m dims).map (·.2.entry.path)).Nodup := by
    have hpaths := (p.paths_partition_perm m dims).nodup_iff.1 h
    rwa [← map_snd_selections, List.map_map] at hpaths
  refine (((sortBy_perm _ _).map _).nodup_iff).2 ?_
  exact hselected.sublist (List.filter_sublist.map _)

/-- A search for a path finds the same among the entries of a module that apply to a point and among
its contributors. -/
theorem find?_moduleEntries (h : ((p.partition m dims).flatMap (·.paths)).Nodup)
    (hpoint : ∀ v, t.get? v.dimension = some v ↔ v ∈ point) (q : EntryPath) :
    (p.moduleEntries m dims point).find? (·.path = q) =
      ((p.contributors m dims t).map fun x => p.compress x.2.entry).find? (·.path = q) := by
  have hperm : (p.moduleEntries m dims point).Perm
      ((p.contributors m dims t).map fun x => p.compress x.2.entry) := moduleEntries_perm hpoint
  refine find?_eq_of_perm hperm ?_ q
  rw [(hperm.map _).nodup_iff, List.map_map]
  simp only [Function.comp_def, path_compress]
  exact nodup_paths_contributors h t

/-- The code segments of a module for a point are its contributors that are code segments. -/
theorem moduleCode_eq (h : ((p.partition m dims).flatMap (·.paths)).Nodup)
    (hpoint : ∀ v, t.get? v.dimension = some v ↔ v ∈ point) :
    p.moduleCode m dims point = ((p.contributors m dims t).filter (·.2.entry.path.isDex)).map
      fun x => p.compress x.2.entry := by
  have hfilter : ((p.contributors m dims t).filter (·.2.entry.path.isDex)).map
      (fun x => p.compress x.2.entry) =
        ((p.contributors m dims t).map fun x => p.compress x.2.entry).filter (·.path.isDex) := by
    rw [List.filter_map]
    simp only [Function.comp_def, path_compress]
  have hperm : (p.moduleCode m dims point).Perm
      (((p.contributors m dims t).filter (·.2.entry.path.isDex)).map
        fun x => p.compress x.2.entry) := by
    rw [hfilter]
    exact (sortBy_perm _ _).trans ((moduleEntries_perm hpoint).filter _)
  have hdistinct : ((((p.contributors m dims t).filter (·.2.entry.path.isDex)).map
      fun x => p.compress x.2.entry).map (·.path)).Nodup := by
    rw [List.map_map]
    simp only [Function.comp_def, path_compress]
    exact (nodup_paths_contributors h t).sublist (List.filter_sublist.map _)
  have hsorted : (p.moduleCode m dims point).Pairwise fun e e' =>
      e.path.dexIndex?.getD 0 ≤ e'.path.dexIndex?.getD 0 :=
    sortBy_pairwise_of_key (fun e : Entry => e.path.dexIndex?.getD 0) _
  have hsorted' : (((p.contributors m dims t).filter (·.2.entry.path.isDex)).map
      fun x => p.compress x.2.entry).Pairwise fun e e' =>
        e.path.dexIndex?.getD 0 ≤ e'.path.dexIndex?.getD 0 := by
    rw [List.pairwise_map]
    simp only [path_compress]
    exact (sortBy_pairwise_of_key
      (fun x : Candidate × Candidate => x.2.entry.path.dexIndex?.getD 0) _).filter _
  refine hperm.eq_of_pairwise ?_ hsorted hsorted'
  -- segments with one number are at one path, and so the same
  intro a b ha hb hab hba
  obtain ⟨j, hj⟩ := Option.isSome_iff_exists.1 (mem_moduleCode.1 ha).1
  obtain ⟨k, hk⟩ := Option.isSome_iff_exists.1 (mem_moduleCode.1 (hperm.mem_iff.2 hb)).1
  rw [hj, hk] at hab hba
  obtain rfl := Nat.le_antisymm hab hba
  have hpath : a.path = b.path :=
    (EntryPath.eq_dex_of_dexIndex? hj).trans (EntryPath.eq_dex_of_dexIndex? hk).symm
  exact List.inj_on_of_nodup_map hdistinct (hperm.mem_iff.1 ha) hb hpath

end Policy

/-! ### Bundles -/

/-- The selected entries of a bundle that are for the packages with a targeting, module by module in
the order of their declaration, in each module code segments in the order of their numbers. -/
def contributors (p : Policy) (modules : List BundleModule) (dims : SortedSet Dimension)
    (t : Targeting) : List (Candidate × Candidate) :=
  modules.flatMap fun m => p.contributors m dims t

/-- The fragments of a shard of a bundle are in the order of their modules. -/
theorem arrange_shardAt (hdistinct : (modules.map (·.name)).Nodup) :
    (ModuleOrder.ofModules modules).arrange
      (shardAt (bundleFragments p modules dims) i point).fragments =
        (shardAt (bundleFragments p modules dims) i point).fragments := by
  have hordered : (bundleFragments p modules dims).Pairwise fun f f' =>
      (ModuleOrder.ofModules modules).position f.module ≤
        (ModuleOrder.ofModules modules).position f'.module := by
    unfold bundleFragments
    rw [List.pairwise_flatMap]
    constructor
    · intro m _
      refine List.pairwise_of_forall_mem_list fun f hf f' hf' => ?_
      rw [Policy.module_of_mem_partition hf, Policy.module_of_mem_partition hf']
    · refine (ModuleOrder.pairwise_position_lt hdistinct).imp fun {m n} hlt f hf f' hf' => ?_
      rw [Policy.module_of_mem_partition hf, Policy.module_of_mem_partition hf']
      exact Nat.le_of_lt hlt
  apply sortBy_eq_self
  exact (hordered.filter _).imp fun hle => decide_eq_true hle

/-- A search in a list of lists finds the same if it does in each of them. -/
theorem find?_flatMap_congr {α β : Type} {f g : α → List β} {P : β → Bool} {l : List α}
    (h : ∀ a ∈ l, (f a).find? P = (g a).find? P) :
    (l.flatMap f).find? P = (l.flatMap g).find? P := by
  induction l with
  | nil => rfl
  | cons a l ih =>
    obtain ⟨ha, hl⟩ := List.forall_mem_cons.1 h
    rw [List.flatMap_cons, List.flatMap_cons, List.find?_append, List.find?_append, ha, ih hl]

/-- The entry that a merged fragment keeps at a path is that of the first contributor there. -/
theorem exists_contributor_of_mem_plain (hdistinct : (modules.map (·.name)).Nodup)
    (hpaths : ∀ m ∈ modules, ((p.partition m dims).flatMap (·.paths)).Nodup)
    (hpoint : ∀ v, t.get? v.dimension = some v ↔ v ∈ point)
    (h : (ModuleOrder.gather (.ofModules modules)
      (shardAt (bundleFragments p modules dims) i point) s).1 = .ok g) {c : Contribution}
    (hc : c ∈ g.union.plain) :
    ∃ x, (contributors p modules dims t).find? (·.2.entry.path = c.entry.path) = some x ∧
      p.compress x.2.entry = c.entry := by
  have hdex : c.entry.path.isDex = false := isDex_of_mem_plain h (List.mem_map_of_mem hc)
  rw [ModuleOrder.plain_of_gather h, mem_firstsBy_iff, plainOf, List.find?_filter] at hc
  have hfirst : ((ModuleOrder.ofModules modules).shardContributions
      (shardAt (bundleFragments p modules dims) i point)).find?
        (·.entry.path = c.entry.path) = some c := by
    rw [← hc]
    congr 1
    funext b
    by_cases hb : b.entry.path = c.entry.path
    · simp [hb, hdex]
    · simp [hb]
  rw [ModuleOrder.shardContributions, arrange_shardAt hdistinct, contributions_shardAt] at hfirst
  -- the same search among the entries, and then among the contributors
  have hentries : (modules.flatMap fun m => p.moduleEntries m dims point).find?
      (·.path = c.entry.path) = some c.entry := by
    have hmap := congrArg (Option.map Contribution.entry) hfirst
    rw [← Function.comp_def (fun e : Entry => decide (e.path = c.entry.path)) Contribution.entry,
      ← List.find?_map, List.map_flatMap, Option.map_some] at hmap
    simpa only [List.map_map, Function.comp_def, List.map_id'] using hmap
  rw [find?_flatMap_congr fun m hm => Policy.find?_moduleEntries (hpaths m hm) hpoint _,
    ← List.map_flatMap, List.find?_map, Option.map_eq_some_iff] at hentries
  obtain ⟨x, hx, hentry⟩ := hentries
  simp only [Function.comp_def, Policy.path_compress] at hx
  exact ⟨x, hx, hentry⟩

/-- A code segment that is kept is that of the first contributor with its bytes. -/
theorem exists_contributor_of_mem_orderedSegments (hdistinct : (modules.map (·.name)).Nodup)
    (hpaths : ∀ m ∈ modules, ((p.partition m dims).flatMap (·.paths)).Nodup)
    (hpoint : ∀ v, t.get? v.dimension = some v ↔ v ∈ point)
    (hone : OneEntryPerPath [shardAt (bundleFragments p modules dims) i point])
    (hsteady : ∀ c ∈ (shardAt (bundleFragments p modules dims) i point).contents, c.Steady s)
    (hfree : CollisionFree ((ModuleOrder.ofModules modules).hashed s
      (shardAt (bundleFragments p modules dims) i point)))
    (h : (ModuleOrder.gather (.ofModules modules)
      (shardAt (bundleFragments p modules dims) i point) s).1 = .ok g) {a : CodeSegment}
    (ha : a ∈ orderedSegments g.union.segments) :
    ∃ x, (contributors p modules dims t).find? (fun x => x.2.entry.path.isDex &&
        decide (x.2.entry.content.read s = a.entry.content.read s)) = some x ∧
      p.compress x.2.entry = a.entry := by
  obtain ⟨-, hsorted, hentries⟩ := sortBy_segments_of_gather hdistinct hone hsteady h
  have hdigest := ModuleOrder.digest_eq_iff_of_gather hsteady hfree h
  have hmem := mem_of_mem_orderedSegments ha
  rw [orderedSegments, mem_firstsBy_iff] at ha
  have hbytes : (sortBy CodeSegment.precedes g.union.segments).find?
      (·.entry.content.read s = a.entry.content.read s) = some a := by
    rw [← ha, ← List.head?_filter, ← List.head?_filter]
    refine congrArg _ (List.filter_congr fun b hb => ?_)
    rw [decide_eq_decide]
    exact (hdigest b ((sortBy_perm _ _).mem_iff.1 hb) a hmem).symm
  rw [hsorted] at hbytes
  have hcode : (bundleCode p modules dims point).find?
      (·.content.read s = a.entry.content.read s) = some a.entry := by
    rw [← hentries, List.find?_map]
    exact congrArg (Option.map CodeSegment.entry) hbytes
  have hlisted : bundleCode p modules dims point =
      ((contributors p modules dims t).filter (·.2.entry.path.isDex)).map fun x =>
        p.compress x.2.entry := by
    unfold bundleCode contributors
    rw [List.filter_flatMap, List.map_flatMap]
    exact List.flatMap_congr fun m hm => Policy.moduleCode_eq (hpaths m hm) hpoint
  rw [hlisted, List.find?_map, List.find?_filter, Option.map_eq_some_iff] at hcode
  obtain ⟨x, hx, hentry⟩ := hcode
  simp only [Function.comp_def, Policy.content_compress, Bool.decide_and, Bool.decide_eq_true]
    at hx
  exact ⟨x, hx, hentry⟩

/-! ### Packages -/

/-- Whether an entry of a package can be made of an entry of a module: a code segment of a code
segment with the same bytes, any other entry of one at the same path. -/
def Entry.isMadeOf (s : Storage) (e e' : Entry) : Bool :=
  if e.path.isDex then e'.path.isDex && decide (e'.content.read s = e.content.read s)
  else decide (e'.path = e.path)

/-- In every package of a run, in order or on a schedule, an entry at none of the paths that the
bundle provides is stored uncompressed just when it is a code segment and the policy splits by code
compression, or it is a native library, the policy splits by native library compression and the
application cannot be moved to external storage, or the first entry that contributes to the package
and of which it can be made is declared uncompressed. -/
theorem package_compression_exact (p : Policy) (stamp : Option String) (metadata : BundleMetadata)
    (workers : Workers) (modules : List BundleModule) (s : Storage)
    (hdistinct : (modules.map (·.name)).Nodup) (hnames : ∀ m ∈ modules, '\x00' ∉ m.name.toList)
    (hpaths : ∀ m ∈ modules, ((p.partition m p.standaloneDimensions).flatMap (·.paths)).Nodup)
    (hsteady : ∀ f ∈ runFragments p modules, ∀ e ∈ f.entries, e.content.Steady s)
    {found : List Shard}
    (hfound : shards p.standaloneDimensions (runFragments p modules) = .ok found)
    (hfree : CollisionFree (found.flatMap ((ModuleOrder.ofModules modules).hashed s)))
    {packages : List Fragment}
    (hrun : (generatePackages p stamp metadata workers modules s).result = .ok packages ∨
      ∃ schedule, (scheduledRun p stamp metadata modules s found schedule).packages? =
        some packages)
    {P : Fragment} (hP : P ∈ packages) {e : Entry} (he : e ∈ P.entries)
    (hprovided : e.path ∉ metadata.paths) :
    ∃ x, (contributors p modules p.standaloneDimensions P.targeting).find?
        (fun x => e.isMadeOf s x.2.entry) = some x ∧
      (e.compression = .uncompressed ↔
        e.path.isDex ∧ p.splitDexCompression ∨
        e.path.isNativeLibrary ∧ p.splitNativeLibraryCompression ∧
          p.installableOnExternalStorage = false ∨
        x.1.entry.compression = .uncompressed) := by
  obtain ⟨i, hi⟩ := List.mem_iff_getElem?.1 hP
  obtain ⟨point, g, hpoint, hmem, hread, hmade⟩ := exists_gathered_of_run hdistinct hnames hpaths
    hsteady hfound (hfree.subset (ModuleOrder.keyTexts_subset_hashed _ s found)) hrun hi
  have htargeting (v : Value) : P.targeting.get? v.dimension = some v ↔ v ∈ point := by
    rw [hmade, targeting_finished]
    exact get?_eq_some_iff_mem_point (List.mem_of_getElem? hpoint)
      (ModuleOrder.of_gather_eq_ok hread).2.2.1
  -- it is enough to find the entry of which `e` is made, at a path of the same kind
  have hstored {x : Candidate × Candidate} (hkind : x.2.entry.path.isDex = e.path.isDex)
      (hnative : x.2.entry.path.isNativeLibrary = e.path.isNativeLibrary)
      (hentry : (p.compress x.2.entry).compression = e.compression)
      (hx : (contributors p modules p.standaloneDimensions P.targeting).find?
        (fun x => e.isMadeOf s x.2.entry) = some x) :
      e.compression = .uncompressed ↔
        e.path.isDex ∧ p.splitDexCompression ∨
        e.path.isNativeLibrary ∧ p.splitNativeLibraryCompression ∧
          p.installableOnExternalStorage = false ∨
        x.1.entry.compression = .uncompressed := by
    obtain ⟨m, -, hx⟩ := List.mem_flatMap.1 (List.mem_of_find?_eq_some hx)
    rw [← hentry, p.compression_compress, hkind, hnative,
      Policy.compression_of_mem_contributors hx]
  rw [hmade, mem_entries_finished hprovided] at he
  rcases List.mem_append.1 he with he | he
  · obtain ⟨c, hc, rfl⟩ := List.mem_map.1 he
    have hdex : c.entry.path.isDex = false := isDex_of_mem_plain hread (List.mem_map_of_mem hc)
    obtain ⟨x, hx, hentry⟩ := exists_contributor_of_mem_plain hdistinct hpaths htargeting hread hc
    have hpath : x.2.entry.path = c.entry.path := by rw [← hentry, p.path_compress]
    have hfirst : (contributors p modules p.standaloneDimensions P.targeting).find?
        (fun x => c.entry.isMadeOf s x.2.entry) = some x := by
      simpa [Entry.isMadeOf, hdex] using hx
    exact ⟨x, hfirst, hstored (by rw [hpath]) (by rw [hpath]) (by rw [hentry]) hfirst⟩
  · have hdex : e.path.isDex := isDex_of_mem_renumber he
    obtain ⟨⟨a, j⟩, haj, hmoved⟩ := List.mem_map.1 he
    have ha : a ∈ orderedSegments g.union.segments := List.fst_mem_of_mem_zipIdx haj
    have hone : OneEntryPerPath [shardAt (runFragments p modules) i point] :=
      (oneEntryPerPath_of_shards hdistinct hpaths hfound).subset (by simpa using hmem)
    obtain ⟨x, hx, hentry⟩ := exists_contributor_of_mem_orderedSegments hdistinct hpaths htargeting
      hone (fun c hc => steady_contentsOf_shards hsteady hfound c ⟨_, hmem, hc⟩)
      (hfree.subset fun x hx => List.mem_flatMap.2 ⟨_, hmem, hx⟩) hread ha
    -- numbering moves the segment, and changes neither its content nor how it is stored
    have hcontent : a.entry.content = e.content := by rw [← hmoved]; rfl
    have hcompression : a.entry.compression = e.compression := by rw [← hmoved]; rfl
    have hkind : x.2.entry.path.isDex := by
      have hfound := List.find?_some hx
      exact (Bool.and_eq_true_iff.1 hfound).1
    have hfirst : (contributors p modules p.standaloneDimensions P.targeting).find?
        (fun x => e.isMadeOf s x.2.entry) = some x := by
      simpa [Entry.isMadeOf, hdex, hcontent] using hx
    refine ⟨x, hfirst, hstored (hkind.trans hdex.symm) ?_ (by rw [hentry, hcompression]) hfirst⟩
    rw [EntryPath.isNativeLibrary_of_isDex hkind, EntryPath.isNativeLibrary_of_isDex hdex]

/-- Devices may load native libraries straight from the package. -/
def loadedNativePolicy : Policy :=
  { dimensions := .ofList [.abi], splitNativeLibraryCompression := true }

/-- A base module that declares its code uncompressed, and a module that has the same code and the
same asset, which it declares the other way round. -/
def redeclaredBundle : List BundleModule :=
  [{ name := "base", kind := .base, manifest := ⟨"app", ∅, ∅⟩
     slots := [⟨⟨.dex 1, ⟨1, .memory [1]⟩, .uncompressed⟩, none⟩,
       ⟨⟨⟨"assets/a"⟩, ⟨2, .memory [2]⟩, .compressed⟩, none⟩,
       ⟨⟨⟨"lib/x86/a.so"⟩, ⟨3, .memory [3]⟩, .compressed⟩, some ⟨.ofValue (.abi .x86), none⟩⟩]
     distinct := by decide +kernel },
   { name := "shop", manifest := ⟨"app", ∅, ∅⟩
     slots := [⟨⟨.dex 1, ⟨4, .memory [1]⟩, .compressed⟩, none⟩,
       ⟨⟨⟨"assets/a"⟩, ⟨5, .memory [2]⟩, .uncompressed⟩, none⟩]
     distinct := by decide +kernel }]

/-- The one package of the bundle stores its native library uncompressed, as the policy asks for,
and its code, but not its asset, as the first module declares. -/
theorem package_compression_redeclaredBundle :
    ∃ packages P, (generatePackages loadedNativePolicy none {} .shared redeclaredBundle {}).result =
        .ok packages ∧ P ∈ packages ∧
      P.entries.map (fun e => (e.path, e.compression)) =
        [(⟨"assets/a"⟩, .compressed), (⟨"lib/x86/a.so"⟩, .uncompressed), (.dex 1, .uncompressed)] ∧
      ∀ e ∈ P.entries, ∃ x, (contributors loadedNativePolicy redeclaredBundle
          loadedNativePolicy.standaloneDimensions P.targeting).find?
            (fun x => e.isMadeOf {} x.2.entry) = some x ∧
        (e.compression = .uncompressed ↔
          e.path.isDex ∧ loadedNativePolicy.splitDexCompression ∨
          e.path.isNativeLibrary ∧ loadedNativePolicy.splitNativeLibraryCompression ∧
            loadedNativePolicy.installableOnExternalStorage = false ∨
          x.1.entry.compression = .uncompressed) := by
  have hfound : shards loadedNativePolicy.standaloneDimensions
      (runFragments loadedNativePolicy redeclaredBundle) =
        .ok (candidateShards loadedNativePolicy.standaloneDimensions
          (runFragments loadedNativePolicy redeclaredBundle)) := rfl
  have hmade : (generatePackages loadedNativePolicy none {} .shared redeclaredBundle
      {}).result.toOption.map (·.map fun P => P.entries.map fun e => (e.path, e.compression)) =
        some [[(⟨"assets/a"⟩, .compressed), (⟨"lib/x86/a.so"⟩, .uncompressed),
          (.dex 1, .uncompressed)]] := by decide +kernel
  obtain ⟨packages, hrun, hentries⟩ := exists_packages_of_map_eq hmade
  obtain ⟨P, rfl, hstored⟩ := List.map_eq_singleton_iff.1 hentries
  refine ⟨[P], P, hrun, List.mem_singleton_self P, hstored, fun e he => ?_⟩
  exact package_compression_exact loadedNativePolicy none {} .shared redeclaredBundle {}
    (by decide) (by decide) (by decide +kernel)
    (fun _ _ _ _ => Content.steady_of_digest?_eq_none rfl) hfound (by decide +kernel) (.inl hrun)
    (List.mem_singleton_self P) he List.not_mem_nil

end BundlePackaging
