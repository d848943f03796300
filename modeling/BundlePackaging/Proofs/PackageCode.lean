import BundlePackaging.Proofs.Injection
import BundlePackaging.Proofs.PackageContent
import BundlePackaging.Proofs.Scheduling
import BundlePackaging.Proofs.Sharding
import BundlePackaging.Proofs.Transparency
import Mathlib.Data.List.Perm.Basic

/-!
# The code segments of a package

The code segments for a point are those of its modules in the order of their declaration, in each
module in the order of their numbers.  Merging collects the segments fragment by fragment and sorts
them; since a module emits no two entries at one path, sorting can only give this list.  Of segments
with the same bytes the first is kept, and what is kept is numbered without gaps.  The cache may
answer with the segments of another shard, but only with segments that are renumbered alike.

## Main definitions

* `Policy.moduleCode`, `bundleCode` — the code segments of a module, and of a bundle, for a point.
* `declaredSegments` — the same segments as merging lists them.

## Main results

* `sortBy_shardSegments` — sorting the segments of a shard puts them as they are declared.
* `map_read_renumber` — renumbering keeps the first segment with each byte string.
* `filter_isDex_finished` — finishing leaves the code segments alone.
* `exists_gathered_of_run` — a package is the merge of the shard of a point, on an empty cache.
* `package_code_exact` — **the code segments of a package, end to end.**
-/

namespace BundlePackaging

/-! ### Lists -/

section Lists

variable {α β γ : Type}

/-- Keys that tell the same members apart make the same first occurrences. -/
theorem firstsBy_congr [DecidableEq β] [DecidableEq γ] {key : α → β} {key' : α → γ} {l : List α}
    (h : ∀ a ∈ l, ∀ b ∈ l, key a = key b ↔ key' a = key' b) : firstsBy key l = firstsBy key' l := by
  induction l with
  | nil => rfl
  | cons a l ih =>
    have htail := ih fun x hx y hy => h x (List.mem_cons_of_mem _ hx) y (List.mem_cons_of_mem _ hy)
    rw [firstsBy, firstsBy, htail]
    refine congrArg _ (List.filter_congr fun b hb => ?_)
    have hb : b ∈ l := (firstsBy_sublist key' l).subset hb
    rw [decide_eq_decide]
    exact not_congr (h b (List.mem_cons_of_mem _ hb) a List.mem_cons_self)

theorem getElem?_of_mapM_eq_some {f : α → Option β} {l : List α} {r : List β}
    (h : l.mapM f = some r) (i : ℕ) : r[i]? = l[i]?.bind f := by
  have hresults := forall₂_of_mapM_eq_some h
  clear h
  induction hresults generalizing i with
  | nil => rfl
  | cons hfirst _ ih =>
    cases i with
    | zero => exact hfirst.symm
    | succ i => exact ih i

/-- In a list without repetitions an earlier member has a smaller index. -/
theorem pairwise_idxOf_lt [DecidableEq α] {l : List α} (h : l.Nodup) :
    l.Pairwise fun a b => l.idxOf a < l.idxOf b := by
  rw [List.pairwise_iff_getElem]
  intro i j hi hj hlt
  rwa [h.idxOf_getElem i hi, h.idxOf_getElem j hj]

end Lists

variable {o : ModuleOrder} {s t : Storage} {p : Policy} {m : BundleModule}
  {modules : List BundleModule} {dims : SortedSet Dimension} {point : List Value} {i : ℕ}
  {shard : Shard} {g : Gathered}

/-! ### Code that is read -/

/-- Code segments that are united can be read. -/
theorem Union.exists_bytes_of_addAll {C : Set Content} {u v : Union} {cs : List Contribution}
    {n : ℕ} (hst : t.Alike C s) (hu : ∀ x ∈ u.plain, x.entry.content ∈ C)
    (hcs : ∀ c ∈ cs, c.entry.content ∈ C) (h : (u.addAll n cs t).1 = .ok v) :
    ∀ c ∈ cs, c.entry.path.isDex → ∃ bytes, c.entry.content.read s = .ok bytes := by
  induction cs generalizing u t with
  | nil => simp
  | cons c cs ih =>
    obtain ⟨hc, hcs⟩ := List.forall_mem_cons.1 hcs
    obtain ⟨w, hw, h⟩ := of_addAll_cons_eq_ok h
    refine List.forall_mem_cons.2 ⟨fun hdex => ?_,
      ih (restsOn_add hu hc hst).2 (content_mem_of_add hu hc hw) hcs h⟩
    have hindex : c.entry.path.dexIndex? ≠ none := by
      intro hnone
      simp [EntryPath.isDex, hnone] at hdex
    rcases of_add_eq_ok hw with ⟨i, d, -, hd, -⟩ | ⟨hi, -, -⟩ | ⟨hi, -, -⟩
    · obtain ⟨bytes, hread, -⟩ := (Entry.digest_eq_ok (hst.left _ hc)).1 hd
      rw [hst.read] at hread
      exact ⟨bytes, hread⟩
    · exact absurd hi hindex
    · exact absurd hi hindex

/-- The code segments of a shard that is read can be read. -/
theorem ModuleOrder.exists_bytes_of_gather (hsteady : ∀ c ∈ shard.contents, c.Steady s)
    (h : (o.gather shard s).1 = .ok g) {f : Fragment} (hf : f ∈ shard.fragments) {e : Entry}
    (he : e ∈ f.entries) (hdex : e.path.isDex) : ∃ bytes, e.content.read s = .ok bytes :=
  Union.exists_bytes_of_addAll (C := { c | c ∈ shard.contents }) (.refl hsteady) (by simp)
    (fun _ hc => content_mem_of_shardContributions hc) (of_gather_eq_ok h).2.2.2 _
    (mem_shardContributions.2 ⟨f, hf, e, he, rfl⟩) hdex

/-! ### Code as it is declared -/

namespace Policy

/-- The entries of a module that apply to a point. -/
def moduleEntries (p : Policy) (m : BundleModule) (dims : SortedSet Dimension)
    (point : List Value) : List Entry :=
  ((p.partition m dims).filter (·.appliesTo point)).flatMap (·.entries)

/-- The code segments of a module that apply to a point, in the order of their numbers. -/
def moduleCode (p : Policy) (m : BundleModule) (dims : SortedSet Dimension) (point : List Value) :
    List Entry :=
  sortBy (fun a b => a.path.dexIndex?.getD 0 ≤ b.path.dexIndex?.getD 0)
    ((p.moduleEntries m dims point).filter (·.path.isDex))

end Policy

/-- The code segments of a bundle that apply to a point, module by module in the order of their
declaration. -/
def bundleCode (p : Policy) (modules : List BundleModule) (dims : SortedSet Dimension)
    (point : List Value) : List Entry :=
  modules.flatMap fun m => p.moduleCode m dims point

theorem mem_moduleCode {e : Entry} : e ∈ p.moduleCode m dims point ↔
    e.path.isDex ∧ ∃ f ∈ p.partition m dims, f.appliesTo point ∧ e ∈ f.entries := by
  unfold Policy.moduleCode Policy.moduleEntries
  rw [(sortBy_perm _ _).mem_iff, List.mem_filter, List.mem_flatMap, and_comm]
  simp only [List.mem_filter, and_assoc]

theorem mem_bundleCode {e : Entry} : e ∈ bundleCode p modules dims point ↔
    e.path.isDex ∧ ∃ f ∈ (shardAt (bundleFragments p modules dims) i point).fragments,
      e ∈ f.entries := by
  simp only [bundleCode, List.mem_flatMap, mem_moduleCode, mem_fragments_shardAt,
    mem_bundleFragments]
  tauto

/-- The code segments of a bundle that apply to a point, as merging lists them. -/
def declaredSegments (s : Storage) (p : Policy) (modules : List BundleModule)
    (dims : SortedSet Dimension) (point : List Value) : List CodeSegment :=
  modules.flatMap fun m => (p.moduleCode m dims point).filterMap fun e =>
    Contribution.segment? s ⟨m.name, (ModuleOrder.ofModules modules).position m.name, e⟩

theorem Contribution.of_segment?_eq_some {c : Contribution} {a : CodeSegment}
    (h : c.segment? s = some a) : a.module = c.module ∧ a.position = c.position ∧
      a.entry = c.entry ∧ c.entry.path.dexIndex? = some a.index := by
  unfold segment? at h
  split at h
  · next i bytes hi _ =>
    obtain rfl := Option.some.inj h
    exact ⟨rfl, rfl, rfl, hi⟩
  · cases h

theorem map_entry_declaredSegments
    (hread : ∀ e ∈ bundleCode p modules dims point, ∃ bytes, e.content.read s = .ok bytes) :
    (declaredSegments s p modules dims point).map (·.entry) = bundleCode p modules dims point := by
  unfold declaredSegments bundleCode
  rw [List.map_flatMap]
  refine List.flatMap_congr fun m hm => ?_
  rw [List.map_filterMap]
  refine (List.filterMap_congr fun e he => ?_).trans List.filterMap_some
  obtain ⟨bytes, hbytes⟩ := hread e (List.mem_flatMap.2 ⟨m, hm, he⟩)
  obtain ⟨j, hj⟩ := Option.isSome_iff_exists.1 (mem_moduleCode.1 he).1
  simp [Contribution.segment?, hj, hbytes]

theorem contributions_shardAt : o.contributions
    (shardAt (bundleFragments p modules dims) i point).fragments =
      modules.flatMap fun m => (p.moduleEntries m dims point).map fun e =>
        ⟨m.name, o.position m.name, e⟩ := by
  unfold ModuleOrder.contributions shardAt bundleFragments Policy.moduleEntries
  rw [List.filter_flatMap, List.flatMap_assoc]
  refine List.flatMap_congr fun m _ => ?_
  rw [List.map_flatMap]
  refine List.flatMap_congr fun f hf => ?_
  rw [Policy.module_of_mem_partition (List.mem_filter.1 hf).1]

/-- The segments that are declared are those of the shard. -/
theorem declaredSegments_perm : (declaredSegments s p modules dims point).Perm
    ((ModuleOrder.ofModules modules).shardSegments s
      (shardAt (bundleFragments p modules dims) i point)) := by
  have harranged : ((ModuleOrder.ofModules modules).shardContributions
      (shardAt (bundleFragments p modules dims) i point)).Perm
        ((ModuleOrder.ofModules modules).contributions
          (shardAt (bundleFragments p modules dims) i point).fragments) :=
    (sortBy_perm _ _).flatMap_right _
  refine List.Perm.trans ?_ (harranged.filterMap _).symm
  unfold declaredSegments
  rw [contributions_shardAt, List.filterMap_flatMap]
  refine List.Perm.flatMap_left _ fun m _ => ?_
  unfold Policy.moduleCode
  refine ((sortBy_perm _ _).filterMap _).trans (.of_eq ?_)
  rw [List.filterMap_filter, List.filterMap_map]
  -- what is no code segment contributes none
  refine List.filterMap_congr fun e _ => ?_
  cases hindex : e.path.dexIndex? with
  | none => simp [EntryPath.isDex, Contribution.segment?, hindex]
  | some j => simp [EntryPath.isDex, hindex]

theorem CodeSegment.precedes_iff {a b : CodeSegment} : a.precedes b ↔
    a.position < b.position ∨ a.position = b.position ∧ a.index ≤ b.index :=
  rankPrecedes_iff (x := a.rank) (y := b.rank)

/-- Modules with distinct names have ascending positions in the order of their declaration. -/
theorem ModuleOrder.pairwise_position_lt (hdistinct : (modules.map (·.name)).Nodup) :
    modules.Pairwise fun m n => (ModuleOrder.ofModules modules).position m.name <
      (ModuleOrder.ofModules modules).position n.name := by
  have hnames := pairwise_idxOf_lt hdistinct
  rw [List.pairwise_map] at hnames
  exact hnames

/-- The segments that are declared are in order. -/
theorem pairwise_declaredSegments (hdistinct : (modules.map (·.name)).Nodup) :
    (declaredSegments s p modules dims point).Pairwise fun a b => a.precedes b := by
  unfold declaredSegments
  rw [List.pairwise_flatMap]
  constructor
  · intro m _
    have hsorted : (p.moduleCode m dims point).Pairwise fun e e' =>
        e.path.dexIndex?.getD 0 ≤ e'.path.dexIndex?.getD 0 :=
      sortBy_pairwise_of_key (fun e : Entry => e.path.dexIndex?.getD 0) _
    rw [List.pairwise_filterMap]
    refine hsorted.imp fun {e e'} hle a ha b hb => ?_
    obtain ⟨-, hposition, -, hindex⟩ := Contribution.of_segment?_eq_some ha
    obtain ⟨-, hposition', -, hindex'⟩ := Contribution.of_segment?_eq_some hb
    rw [CodeSegment.precedes_iff, hposition, hposition']
    rw [hindex, hindex'] at hle
    exact .inr ⟨rfl, hle⟩
  · refine (ModuleOrder.pairwise_position_lt hdistinct).imp fun {m n} hlt a ha b hb => ?_
    obtain ⟨e, -, ha⟩ := List.mem_filterMap.1 ha
    obtain ⟨e', -, hb⟩ := List.mem_filterMap.1 hb
    obtain ⟨-, hposition, -⟩ := Contribution.of_segment?_eq_some ha
    obtain ⟨-, hposition', -⟩ := Contribution.of_segment?_eq_some hb
    rw [CodeSegment.precedes_iff, hposition, hposition']
    exact .inl hlt

/-- Sorting the segments of a shard puts them as they are declared, if names and paths tell
entries. -/
theorem sortBy_shardSegments (hdistinct : (modules.map (·.name)).Nodup)
    (hone : OneEntryPerPath [shardAt (bundleFragments p modules dims) i point]) :
    sortBy CodeSegment.precedes ((ModuleOrder.ofModules modules).shardSegments s
      (shardAt (bundleFragments p modules dims) i point)) =
        declaredSegments s p modules dims point := by
  have hknown : ∀ f ∈ (shardAt (bundleFragments p modules dims) i point).fragments,
      f.module ∈ (ModuleOrder.ofModules modules).names := fun f hf =>
    module_mem_names (mem_fragments_shardAt.1 hf).1
  refine List.Perm.eq_of_pairwise ?_
    (sortBy_pairwise _ (fun a b => CodeSegment.rankPrecedes_total a.rank b.rank)
      (fun a b c => CodeSegment.rankPrecedes_trans a.rank b.rank c.rank) _)
    (pairwise_declaredSegments hdistinct)
    ((sortBy_perm _ _).trans declaredSegments_perm.symm)
  intro a b ha hb hab hba
  have hdeclared : (declaredSegments s p modules dims point).Perm
      ((ModuleOrder.ofModules modules).shardSegments s
        (shardAt (bundleFragments p modules dims) i point)) := declaredSegments_perm
  have ha := (sortBy_perm _ _).mem_iff.1 ha
  have hb := hdeclared.mem_iff.1 hb
  obtain ⟨hposition, hindex⟩ := CodeSegment.eq_of_precedes hab hba
  obtain ⟨hmodule, hpath⟩ := (CodeSegment.Placed.of_mem_shardSegments hknown ha).module_path_eq
    (.of_mem_shardSegments hknown hb) hposition hindex
  exact hone.segment_eq List.mem_cons_self List.mem_cons_self ha hb hmodule hpath

/-! ### Renumbering -/

/-- The paths of renumbered segments are those of the numbers from 1, which have 32 bits. -/
theorem map_path_renumber (l : List CodeSegment) : (renumber l).map (·.path) =
    (List.range (renumber l).length).map fun j => .dex ((j + 1) % UInt32.size) := by
  unfold renumber
  rw [List.length_map, List.length_zipIdx, List.range_eq_range', ← List.zipIdx_map_snd 0,
    List.map_map, List.map_map]
  rfl

theorem map_path_renumber_of_lt (h : (renumber l).length < UInt32.size) :
    (renumber l).map (·.path) = (List.range (renumber l).length).map fun j => .dex (j + 1) := by
  rw [map_path_renumber]
  apply List.map_congr_left
  intro j hj
  rw [List.mem_range] at hj
  rw [Nat.mod_eq_of_lt (by omega)]

/-- Renumbering changes nothing but paths. -/
theorem map_renumber {α : Type} {l : List CodeSegment} {f : Entry → α}
    (hf : ∀ e q, f (e.moveTo q) = f e) :
    (renumber l).map f = (orderedSegments l).map fun a => f a.entry := by
  have hfst := congrArg (List.map fun a : CodeSegment => f a.entry)
    (List.zipIdx_map_fst 0 (orderedSegments l))
  rw [List.map_map] at hfst
  unfold renumber
  rw [List.map_map, ← hfst]
  exact List.map_congr_left fun x _ => hf x.1.entry _

/-- Of segments whose digests tell their bytes, renumbering keeps the first with each byte
string. -/
theorem map_read_renumber {l : List CodeSegment}
    (h : ∀ a ∈ l, ∀ b ∈ l, a.digest = b.digest ↔
      a.entry.content.read s = b.entry.content.read s) :
    (renumber l).map (·.content.read s) =
      firstsBy id ((sortBy CodeSegment.precedes l).map fun a => a.entry.content.read s) := by
  have hkept : (renumber l).map (·.content.read s) =
      (orderedSegments l).map fun a => a.entry.content.read s := map_renumber fun _ _ => rfl
  have hkeys : orderedSegments l =
      firstsBy (fun a => a.entry.content.read s) (sortBy CodeSegment.precedes l) :=
    firstsBy_congr fun a ha b hb =>
      h a ((sortBy_perm _ _).mem_iff.1 ha) b ((sortBy_perm _ _).mem_iff.1 hb)
  rw [hkept, hkeys]
  exact map_firstsBy (fun a : CodeSegment => a.entry.content.read s) id _

/-! ### Finishing -/

/-- Finishing leaves the code segments as they are. -/
theorem filter_isDex_finished {restrictV3 : Bool} {stamp : Option String}
    {metadata : BundleMetadata} {f : Fragment} :
    (applyInjectors (standaloneInjectors restrictV3 stamp metadata) f).entries.filter
      (·.path.isDex) = f.entries.filter (·.path.isDex) :=
  filter_isDex_applyInjectors (fun _ => isStandalone_of_mem) f

/-- The code segments of a merged fragment are those that were renumbered. -/
theorem filter_isDex_fragmentWith (h : (o.gather shard t).1 = .ok g) (l : List CodeSegment) :
    (g.fragmentWith o (renumber l)).entries.filter (·.path.isDex) = renumber l := by
  change (g.union.plain.map (·.entry) ++ renumber l).filter (·.path.isDex) = _
  have hplain : (g.union.plain.map (·.entry)).filter (·.path.isDex) = [] := by
    rw [List.filter_eq_nil_iff]
    intro e he
    rw [isDex_of_mem_plain h he]
    exact Bool.false_ne_true
  rw [List.filter_append, hplain, List.nil_append, List.filter_eq_self]
  exact fun e he => isDex_of_mem_renumber he

/-! ### Packages -/

/-- A run, in order or on a schedule, makes the packages of its shards, each merged on an empty
cache. -/
theorem mapM_package?_eq_some {stamp : Option String} {metadata : BundleMetadata}
    {workers : Workers} (hdistinct : (modules.map (·.name)).Nodup)
    (hnames : ∀ m ∈ modules, '\x00' ∉ m.name.toList)
    (hpaths : ∀ m ∈ modules, ((p.partition m p.standaloneDimensions).flatMap (·.paths)).Nodup)
    (hsteady : ∀ f ∈ runFragments p modules, ∀ e ∈ f.entries, e.content.Steady s)
    {found : List Shard}
    (hfound : shards p.standaloneDimensions (runFragments p modules) = .ok found)
    (hfree : CollisionFree ((ModuleOrder.ofModules modules).keyTexts s found))
    {packages : List Fragment}
    (hrun : (generatePackages p stamp metadata workers modules s).result = .ok packages ∨
      ∃ schedule, (scheduledRun p stamp metadata modules s found schedule).packages? =
        some packages) :
    found.mapM ((ModuleOrder.ofModules modules).package?
      (standaloneInjectors p.restrictV3Signing stamp metadata) s) = some packages := by
  have hs := steady_contentsOf_shards hsteady hfound
  have hkeys := keysTellRenumbering_of_shards hdistinct hnames hpaths hfound hfree
  have hC : ∀ shard ∈ found, ∀ c ∈ shard.contents, c ∈ contentsOf found :=
    fun shard hshard c hc => ⟨shard, hshard, hc⟩
  rcases hrun with hrun | ⟨schedule, hrun⟩
  · obtain ⟨hresult, -⟩ := generatePackages_of_shards stamp metadata workers s hfound
    obtain ⟨hinorder, -⟩ := finishShards_sound
      (standaloneInjectors p.restrictV3Signing stamp metadata) hs hkeys hC
      (List.Subset.refl found) (.fresh hs) MergeCache.tally_empty
    rw [← hinorder, ← hresult, hrun]
    rfl
  · have hsound := (Pool.sound_start (.ofModules modules)
      (standaloneInjectors p.restrictV3Signing stamp metadata) hs).run hs hkeys hC schedule
    have hended : (scheduledRun p stamp metadata modules s found schedule).Ended :=
      .inr (isSome_of_isSome_mapM (by rw [← Pool.packages?, hrun]; rfl))
    rw [← hsound.packages?_eq hended]
    exact hrun

/-- A package of a run, in order or on a schedule, is the merge of the shard of the point at its
position, on an empty cache and finished. -/
theorem exists_gathered_of_run {stamp : Option String} {metadata : BundleMetadata}
    {workers : Workers} (hdistinct : (modules.map (·.name)).Nodup)
    (hnames : ∀ m ∈ modules, '\x00' ∉ m.name.toList)
    (hpaths : ∀ m ∈ modules, ((p.partition m p.standaloneDimensions).flatMap (·.paths)).Nodup)
    (hsteady : ∀ f ∈ runFragments p modules, ∀ e ∈ f.entries, e.content.Steady s)
    {found : List Shard}
    (hfound : shards p.standaloneDimensions (runFragments p modules) = .ok found)
    (hfree : CollisionFree ((ModuleOrder.ofModules modules).keyTexts s found))
    {packages : List Fragment}
    (hrun : (generatePackages p stamp metadata workers modules s).result = .ok packages ∨
      ∃ schedule, (scheduledRun p stamp metadata modules s found schedule).packages? =
        some packages)
    {P : Fragment} (hP : packages[i]? = some P) :
    ∃ point g, (runPoints p modules)[i]? = some point ∧
      shardAt (runFragments p modules) i point ∈ found ∧
      (ModuleOrder.gather (.ofModules modules) (shardAt (runFragments p modules) i point) s).1 =
        .ok g ∧
      P = applyInjectors (standaloneInjectors p.restrictV3Signing stamp metadata)
        (g.fragmentWith (.ofModules modules) (renumber g.union.segments)) := by
  have hmade := mapM_package?_eq_some hdistinct hnames hpaths hsteady hfound hfree hrun
  have hpackage := getElem?_of_mapM_eq_some hmade i
  rw [hP] at hpackage
  obtain ⟨shard, hshard, hpackage⟩ := Option.bind_eq_some_iff.1 hpackage.symm
  obtain ⟨point, hpoint, rfl⟩ := exists_point_of_shards_eq_ok hfound hshard
  cases hread : (ModuleOrder.gather (.ofModules modules)
      (shardAt (runFragments p modules) i point) s).1 with
  | error fault =>
    rw [ModuleOrder.package?_of_gather_eq_error hread] at hpackage
    cases hpackage
  | ok g =>
    rw [ModuleOrder.package?_of_gather_eq_ok hread] at hpackage
    exact ⟨point, g, hpoint, List.mem_of_getElem? hshard, hread, (Option.some.inj hpackage).symm⟩

/-- Without collisions the digests of the segments that are read of a shard tell their bytes. -/
theorem ModuleOrder.digest_eq_iff_of_gather (hsteady : ∀ c ∈ shard.contents, c.Steady s)
    (hfree : CollisionFree (o.hashed s shard)) (h : (o.gather shard s).1 = .ok g) :
    ∀ a ∈ g.union.segments, ∀ b ∈ g.union.segments, a.digest = b.digest ↔
      a.entry.content.read s = b.entry.content.read s := by
  rw [segments_of_gather (C := { c | c ∈ shard.contents }) (.refl hsteady) (fun _ hc => hc) h]
  intro a ha b hb
  obtain ⟨x, hx, hreadx, hdx⟩ := exists_bytes_of_mem_shardSegments ha
  obtain ⟨y, hy, hready, hdy⟩ := exists_bytes_of_mem_shardSegments hb
  rw [hreadx, hready, hdx, hdy, Except.ok.injEq]
  exact ⟨hfree x hx y hy, congrArg _⟩

/-- The segments that are read of the shard of a point are sorted as they are declared, and all of
them can be read. -/
theorem sortBy_segments_of_gather (hdistinct : (modules.map (·.name)).Nodup)
    (hone : OneEntryPerPath [shardAt (bundleFragments p modules dims) i point])
    (hsteady : ∀ c ∈ (shardAt (bundleFragments p modules dims) i point).contents, c.Steady s)
    (h : (ModuleOrder.gather (.ofModules modules)
      (shardAt (bundleFragments p modules dims) i point) s).1 = .ok g) :
    (∀ e ∈ bundleCode p modules dims point, ∃ bytes, e.content.read s = .ok bytes) ∧
      sortBy CodeSegment.precedes g.union.segments = declaredSegments s p modules dims point ∧
      (declaredSegments s p modules dims point).map (·.entry) =
        bundleCode p modules dims point := by
  have hread : ∀ e ∈ bundleCode p modules dims point, ∃ bytes, e.content.read s = .ok bytes := by
    intro e he
    obtain ⟨hdex, f, hf, he⟩ := (mem_bundleCode (i := i)).1 he
    exact ModuleOrder.exists_bytes_of_gather hsteady h hf he hdex
  refine ⟨hread, ?_, map_entry_declaredSegments hread⟩
  rw [ModuleOrder.segments_of_gather (C := { c | c ∈ (shardAt (bundleFragments p modules dims) i
    point).contents }) (.refl hsteady) (fun _ hc => hc) h]
  exact sortBy_shardSegments hdistinct hone

/-- The code segments of a package that is the merge of the shard of a point: they have the bytes of
the declared segments, each byte string where it is first. -/
theorem code_of_gather (hdistinct : (modules.map (·.name)).Nodup)
    (hone : OneEntryPerPath [shardAt (bundleFragments p modules dims) i point])
    (hsteady : ∀ c ∈ (shardAt (bundleFragments p modules dims) i point).contents, c.Steady s)
    (hfree : CollisionFree ((ModuleOrder.ofModules modules).hashed s
      (shardAt (bundleFragments p modules dims) i point)))
    (h : (ModuleOrder.gather (.ofModules modules)
      (shardAt (bundleFragments p modules dims) i point) s).1 = .ok g) :
    (∀ e ∈ bundleCode p modules dims point, ∃ bytes, e.content.read s = .ok bytes) ∧
      (renumber g.union.segments).map (·.content.read s) =
        firstsBy id ((bundleCode p modules dims point).map (·.content.read s)) := by
  obtain ⟨hread, hsorted, hentries⟩ := sortBy_segments_of_gather hdistinct hone hsteady h
  refine ⟨hread, ?_⟩
  rw [map_read_renumber (ModuleOrder.digest_eq_iff_of_gather hsteady hfree h), hsorted, ← hentries,
    List.map_map]
  rfl

/-- In every package of a run, in order or on a schedule, the code segments have the paths of the
numbers from 1 and no gap, and their byte strings are those of the declared segments for the
package's point, each where it is first. -/
theorem package_code_exact (p : Policy) (stamp : Option String) (metadata : BundleMetadata)
    (workers : Workers) (modules : List BundleModule) (s : Storage)
    (hdistinct : (modules.map (·.name)).Nodup) (hnames : ∀ m ∈ modules, '\x00' ∉ m.name.toList)
    (hpaths : ∀ m ∈ modules, ((p.partition m p.standaloneDimensions).flatMap (·.paths)).Nodup)
    (hsteady : ∀ f ∈ runFragments p modules, ∀ e ∈ f.entries, e.content.Steady s)
    {found : List Shard}
    (hfound : shards p.standaloneDimensions (runFragments p modules) = .ok found)
    (hfree : CollisionFree (found.flatMap ((ModuleOrder.ofModules modules).hashed s)))
    {packages : List Fragment}
    (hrun : (generatePackages p stamp metadata workers modules s).result = .ok packages ∨
      ∃ schedule, (scheduledRun p stamp metadata modules s found schedule).packages? =
        some packages)
    {i : ℕ} {P : Fragment} (hP : packages[i]? = some P) :
    let code := P.entries.filter (·.path.isDex)
    ∃ point, (runPoints p modules)[i]? = some point ∧
      (∀ v, P.targeting.get? v.dimension = some v ↔ v ∈ point) ∧
      code.map (·.path) = (List.range code.length).map (fun j => .dex ((j + 1) % UInt32.size)) ∧
      (code.length < UInt32.size →
        code.map (·.path) = (List.range code.length).map fun j => .dex (j + 1)) ∧
      (∀ e ∈ bundleCode p modules p.standaloneDimensions point,
        ∃ bytes, e.content.read s = .ok bytes) ∧
      code.map (·.content.read s) = firstsBy id
        ((bundleCode p modules p.standaloneDimensions point).map (·.content.read s)) := by
  intro code
  obtain ⟨point, g, hpoint, hmem, hread, hmade⟩ := exists_gathered_of_run hdistinct hnames hpaths
    hsteady hfound (hfree.subset (ModuleOrder.keyTexts_subset_hashed _ s found)) hrun hP
  have hcode : code = renumber g.union.segments := by
    show P.entries.filter (·.path.isDex) = _
    rw [hmade]
    exact filter_isDex_finished.trans (filter_isDex_fragmentWith hread _)
  have hpaths' : code.map (·.path) =
      (List.range code.length).map fun j => .dex ((j + 1) % UInt32.size) := by
    rw [hcode]
    exact map_path_renumber _
  have hone : OneEntryPerPath [shardAt (runFragments p modules) i point] :=
    (oneEntryPerPath_of_shards hdistinct hpaths hfound).subset (by simpa using hmem)
  obtain ⟨hbytes, hcontents⟩ := code_of_gather hdistinct hone
    (fun c hc => steady_contentsOf_shards hsteady hfound c ⟨_, hmem, hc⟩)
    (hfree.subset fun x hx => List.mem_flatMap.2 ⟨_, hmem, hx⟩) hread
  refine ⟨point, hpoint, fun v => ?_, hpaths', fun hlength => ?_, hbytes, ?_⟩
  · rw [hmade, targeting_finished]
    exact get?_eq_some_iff_mem_point (List.mem_of_getElem? hpoint)
      (ModuleOrder.of_gather_eq_ok hread).2.2.1
  · rw [hpaths']
    refine List.map_congr_left fun j hj => ?_
    rw [Nat.mod_eq_of_lt (by rw [List.mem_range] at hj; omega)]
  · rw [hcode]
    exact hcontents

/-- A base module with segments that textual order would misplace, and a module that repeats one of
them and has another for one architecture. -/
def codeBundle : List BundleModule :=
  [{ name := "base", kind := .base, manifest := ⟨"app", ∅, ∅⟩
     slots := [⟨⟨.dex 10, ⟨1, .memory [4]⟩, .compressed⟩, none⟩,
       ⟨⟨.dex 2, ⟨2, .memory [2]⟩, .compressed⟩, none⟩,
       ⟨⟨⟨"lib/mips/a.so"⟩, ⟨3, .memory [1]⟩, .compressed⟩, some ⟨.ofValue (.abi .mips), none⟩⟩]
     distinct := by decide +kernel },
   { name := "shop", manifest := ⟨"app", ∅, ∅⟩
     slots := [⟨⟨.dex 2, ⟨4, .memory [3]⟩, .compressed⟩, some ⟨.ofValue (.abi .x86), none⟩⟩,
       ⟨⟨.dex 1, ⟨5, .memory [2]⟩, .compressed⟩, none⟩]
     distinct := by decide +kernel }]

/-- The shards of the bundle, one for each architecture. -/
def codeShards : List Shard :=
  candidateShards nativePolicy.standaloneDimensions (runFragments nativePolicy codeBundle)

theorem package_code_codeBundle :
    ∃ packages P, (generatePackages nativePolicy none {} .shared codeBundle {}).result =
        .ok packages ∧ packages[0]? = some P ∧
      (P.entries.filter (·.path.isDex)).map (·.path) = [.dex 1, .dex 2, .dex 3] ∧
      (P.entries.filter (·.path.isDex)).map (·.content.read {}) =
        [.ok [2], .ok [4], .ok [3]] := by
  have hfound : shards nativePolicy.standaloneDimensions (runFragments nativePolicy codeBundle) =
      .ok codeShards := rfl
  have hmade : ((generatePackages nativePolicy none {} .shared codeBundle {}).result.toOption.bind
      (·[0]?)).isSome := by decide +kernel
  obtain ⟨packages, hrun⟩ := exists_packages_of_isSome nativePolicy none {} .shared codeBundle {}
    (Option.isSome_of_isSome_bind hmade)
  rw [hrun] at hmade
  obtain ⟨P, hP⟩ := Option.isSome_iff_exists.1 hmade
  obtain ⟨point, hpoint, -, -, hpaths, -, hcontents⟩ := package_code_exact nativePolicy none {}
    .shared codeBundle {} (by decide) (by decide) (by decide)
    (fun _ _ e _ => Content.steady_of_digest?_eq_none rfl) hfound (by decide +kernel) (.inl hrun) hP
  have hfirst : (runPoints nativePolicy codeBundle)[0]? = some [.abi .x86] := rfl
  rw [hfirst] at hpoint
  obtain rfl := Option.some.inj hpoint
  have hbytes : firstsBy id ((bundleCode nativePolicy codeBundle nativePolicy.standaloneDimensions
      [.abi .x86]).map (·.content.read {})) = [.ok [2], .ok [4], .ok [3]] := rfl
  rw [hbytes] at hcontents
  have hlength : (P.entries.filter (·.path.isDex)).length = 3 := by
    simpa using congrArg List.length hcontents
  refine ⟨packages, P, hrun, hP, ?_, hcontents⟩
  rw [hpaths (by rw [hlength]; decide), hlength]
  rfl

end BundlePackaging
