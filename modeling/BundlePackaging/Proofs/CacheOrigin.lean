import BundlePackaging.Proofs.PackageCode

/-!
# Whose code a cache answers with

What a cache keeps under a key was computed for the first shard that asked for the key, and every
later shard with this key gets the segments of that first one.  The key tells the modules, the paths
and the bytes of the segments, so the bytes are those of the later shard too.  It does not tell how
the segments are stored: a shard that declares a segment uncompressed may get it compressed, as an
earlier shard had it.

## Main definitions

* `ModuleOrder.asker?`, `ModuleOrder.origin` — the first shard with a key, and for which shard the
  code of a package was computed.
* `MergeCache.Traces` — the cache keeps what the first shard with each key computed.

## Main results

* `ModuleOrder.forall₂_mergeAll` — every merge answers with the code of the origin.
* `ModuleOrder.mem_parts_origin_iff` — the origin has the same code at the same paths.
* `ModuleOrder.code_of_mergeAll` — **the bytes are always those of the shard's own code, and so is
  the compression just when it was for each segment of the origin.**
* `not_forall_code_declared` — it need not be.
-/

namespace BundlePackaging

variable {o : ModuleOrder} {s : Storage} {C : Set Content} {past shards : List Shard}
  {shard : Shard} {g : Gathered} {c : MergeCache} {w : Workbench} {key : MergeKey}

/-! ### The first shard with a key -/

namespace ModuleOrder

/-- The first of some shards that asks the cache for the key. -/
def asker? (o : ModuleOrder) (s : Storage) (shards : List Shard) (key : MergeKey) : Option Shard :=
  shards.find? fun shard => o.key? s shard = some key

/-- The shard for which the code of a shard's package is computed when the shards are merged one
after the other: the first with the same key. -/
def origin (o : ModuleOrder) (s : Storage) (shards : List Shard) (shard : Shard) : Shard :=
  ((o.key? s shard).bind (o.asker? s shards)).getD shard

theorem of_asker?_eq_some {first : Shard} (h : o.asker? s shards key = some first) :
    first ∈ shards ∧ o.key? s first = some key := by
  unfold asker? at h
  exact ⟨List.mem_of_find?_eq_some h, by simpa using List.find?_some h⟩

/-- One more shard does not change who asked first for the keys of other shards. -/
theorem asker?_concat_of_ne (h : o.key? s shard ≠ some key) :
    o.asker? s (past ++ [shard]) key = o.asker? s past key := by
  unfold asker?
  rw [List.find?_append, List.find?_singleton, if_neg (by simpa using h), Option.or_none]

/-- It is the first with its own key if no shard before it was. -/
theorem asker?_concat_of_eq (h : o.key? s shard = some key) :
    o.asker? s (past ++ [shard]) key = some ((o.asker? s past key).getD shard) := by
  unfold asker?
  rw [List.find?_append, List.find?_singleton, if_pos (by simpa using h)]
  cases past.find? fun first => o.key? s first = some key <;> rfl

theorem origin_of_key?_eq_none (h : o.key? s shard = none) : o.origin s shards shard = shard := by
  rw [origin, h]
  rfl

theorem origin_of_key?_eq_some (h : o.key? s shard = some key) :
    o.origin s shards shard = (o.asker? s shards key).getD shard := by
  rw [origin, h]
  rfl

/-- Shards that come later are not the origin of what was asked for before. -/
theorem origin_append (h : shard ∈ past) (rest : List Shard) :
    o.origin s (past ++ rest) shard = o.origin s past shard := by
  cases hkey : o.key? s shard with
  | none => rw [origin_of_key?_eq_none hkey, origin_of_key?_eq_none hkey]
  | some key =>
    have hsome : (o.asker? s past key).isSome := by
      rw [asker?, List.find?_isSome]
      exact ⟨shard, h, decide_eq_true hkey⟩
    have hfirst : o.asker? s (past ++ rest) key = o.asker? s past key := by
      unfold asker? at hsome ⊢
      rw [List.find?_append, Option.or_of_isSome hsome]
    rw [origin_of_key?_eq_some hkey, origin_of_key?_eq_some hkey, hfirst]

end ModuleOrder

/-! ### What the cache keeps -/

/-- Under each key the cache keeps the renumbered segments of the first shard with this key. -/
def MergeCache.Traces (o : ModuleOrder) (s : Storage) (past : List Shard) (c : MergeCache) : Prop :=
  ∀ key, c.lookUp? key =
    (o.asker? s past key).map fun first => renumber (o.shardSegments s first)

theorem MergeCache.traces_empty (o : ModuleOrder) (s : Storage) : empty.Traces o s [] :=
  fun _ => rfl

/-- A shard without a key leaves the first askers as they are. -/
theorem MergeCache.Traces.concat_of_key?_eq_none (h : c.Traces o s past)
    (hkey : o.key? s shard = none) : c.Traces o s (past ++ [shard]) := by
  intro key
  rw [h key, ModuleOrder.asker?_concat_of_ne (by simp [hkey])]

/-- A request for the key of a shard is answered with the segments of the first shard with this key,
and the cache keeps them. -/
theorem MergeCache.Traces.getOrMerge (h : c.Traces o s past) (hkey : o.key? s shard = some key) :
    let answer := c.getOrMerge key fun _ => renumber (o.shardSegments s shard)
    answer.2.2.Traces o s (past ++ [shard]) ∧
      answer.1 = renumber (o.shardSegments s ((o.asker? s past key).getD shard)) := by
  unfold MergeCache.getOrMerge
  have hsame : o.asker? s (past ++ [shard]) key = some ((o.asker? s past key).getD shard) :=
    ModuleOrder.asker?_concat_of_eq hkey
  have hother (k : MergeKey) (hk : k ≠ key) :
      o.asker? s (past ++ [shard]) k = o.asker? s past k :=
    ModuleOrder.asker?_concat_of_ne (by simpa [hkey] using hk.symm)
  -- the key was asked for before just when something is kept
  cases hasker : o.asker? s past key with
  | some first =>
    rw [h key, hasker]
    refine ⟨fun k => ?_, rfl⟩
    show c.lookUp? k = _
    rw [h k]
    by_cases hk : k = key
    · rw [hk, hsame, hasker]
      rfl
    · rw [hother k hk]
  | none =>
    rw [h key, hasker]
    refine ⟨fun k => ?_, rfl⟩
    show (c.fill key _).lookUp? k = _
    rw [MergeCache.lookUp?_fill]
    by_cases hk : k = key
    · rw [if_pos hk, hk, hsame, hasker]
      rfl
    · rw [if_neg hk, h k, hother k hk]

/-- A shard that was read gets the segments of its origin. -/
theorem Gathered.segments_of_traces (h : c.Traces o s past)
    (hread : (o.gather shard s).1 = .ok g)
    (hsegments : g.union.segments = o.shardSegments s shard) :
    (g.segments c).2.2.Traces o s (past ++ [shard]) ∧
      (g.segments c).1 = renumber (o.shardSegments s (o.origin s (past ++ [shard]) shard)) := by
  have hkey? := ModuleOrder.key?_of_gather_eq_ok hread
  rcases g.segments_eq c with ⟨hempty, hnone, hanswer⟩ | ⟨hkey, hentries, hcache⟩
  · rw [← hkey?] at hnone
    rw [hanswer, ModuleOrder.origin_of_key?_eq_none hnone, ← hsegments, hempty]
    exact ⟨h.concat_of_key?_eq_none hnone, rfl⟩
  · rw [← hkey?] at hkey
    rw [hentries, hcache, ModuleOrder.origin_of_key?_eq_some hkey,
      ModuleOrder.asker?_concat_of_eq hkey, hsegments]
    rw [hsegments] at hkey
    exact h.getOrMerge hkey

/-- A merge leaves the cache with what the first shard with each key computed, and takes the code of
the package from there. -/
theorem ModuleOrder.merge_of_traces (hw : w.storage.Alike C s) (hC : ∀ x ∈ shard.contents, x ∈ C)
    (h : w.cache.Traces o s past) :
    ((o.merge shard w).2.storage.Alike C s ∧
      (o.merge shard w).2.cache.Traces o s (past ++ [shard])) ∧
      ∀ merged, (o.merge shard w).1 = .ok merged → ∃ g, (o.gather shard s).1 = .ok g ∧
        merged.fragment = g.fragmentWith o
          (renumber (o.shardSegments s (o.origin s (past ++ [shard]) shard))) := by
  obtain ⟨hanswer, hafter⟩ := restsOn_gather (o := o) hC hw
  rcases o.merge_cases shard w with ⟨fault, hread, hmerge⟩ | ⟨g, hread, hmerge⟩
  · rw [hread] at hanswer
    rw [hmerge]
    have hnone := key?_of_gather_eq_error hanswer.symm
    refine ⟨⟨hafter, h.concat_of_key?_eq_none hnone⟩, fun merged hmerged => ?_⟩
    cases hmerged
  · rw [hread] at hanswer
    rw [hmerge]
    have hsegments : g.union.segments = o.shardSegments s shard :=
      segments_of_gather (.refl hw.right) hC hanswer.symm
    obtain ⟨hcache, hentries⟩ := Gathered.segments_of_traces h hanswer.symm hsegments
    refine ⟨⟨hafter, hcache⟩, fun merged hmerged => ?_⟩
    obtain rfl := Except.ok.inj hmerged
    refine ⟨g, hanswer.symm, ?_⟩
    rw [Gathered.fragment_fuse, hentries]

/-- Of shards that are merged one after the other, each that can be merged gets the code of its
origin. -/
theorem ModuleOrder.forall₂_mergeAll {rest : List Shard} (hw : w.storage.Alike C s)
    (hC : ∀ shard ∈ rest, ∀ x ∈ shard.contents, x ∈ C) (h : w.cache.Traces o s past) :
    List.Forall₂ (fun shard answer => ∀ merged, answer = .ok merged →
        ∃ g, (o.gather shard s).1 = .ok g ∧ merged.fragment = g.fragmentWith o
          (renumber (o.shardSegments s (o.origin s (past ++ rest) shard))))
      rest (mergeAll (rest.map (o, ·)) w).1 := by
  induction rest generalizing past w with
  | nil => exact .nil
  | cons shard rest ih =>
    obtain ⟨hshard, hrest⟩ := List.forall_mem_cons.1 hC
    obtain ⟨⟨hstorage, hcache⟩, hanswer⟩ := merge_of_traces hw hshard h
    have hlater := ih hstorage hrest hcache
    rw [List.append_assoc, List.singleton_append] at hlater
    refine .cons (fun merged hmerged => ?_) hlater
    obtain ⟨g, hread, hfragment⟩ := hanswer merged hmerged
    refine ⟨g, hread, ?_⟩
    rw [hfragment, ← origin_append (List.mem_append_right past List.mem_cons_self) rest,
      List.append_assoc, List.singleton_append]

/-! ### Renumbered segments -/

/-- Both entries can be read, and have the same bytes. -/
def Entry.SameBytes (s : Storage) (a b : Entry) : Prop :=
  ∃ bytes, a.content.read s = .ok bytes ∧ b.content.read s = .ok bytes

/-- What paths have no part in holds of renumbered segments just when it holds of those that are
kept. -/
theorem forall_mem_renumber_iff {l : List CodeSegment} {p : Entry → Prop}
    (hp : ∀ e q, p (e.moveTo q) = p e) :
    (∀ e ∈ renumber l, p e) ↔ ∀ a ∈ orderedSegments l, p a.entry := by
  have hkept : (∀ x ∈ (renumber l).map p, x) ↔
      ∀ x ∈ (orderedSegments l).map fun a => p a.entry, x := by
    rw [map_renumber hp]
  rwa [List.forall_mem_map, List.forall_mem_map] at hkept

/-! ### The origin of a shard's code -/

/-- A shard that asks for a key was read, and the key is that of its segments. -/
theorem ModuleOrder.requested_of_key? (hs : ∀ x ∈ shard.contents, x.Steady s)
    (hshard : shard ∈ shards) (h : o.key? s shard = some key) :
    o.Requested s shards (o.shardSegments s shard) ∧
      key = .ofSegments (o.shardSegments s shard) := by
  unfold key? at h
  cases hread : (o.gather shard s).1 with
  | error fault =>
    rw [hread] at h
    cases h
  | ok g =>
    rw [hread] at h
    have hsegments : g.union.segments = o.shardSegments s shard :=
      segments_of_gather (C := { x | x ∈ shard.contents }) (.refl hs) (fun _ hx => hx) hread
    refine ⟨⟨shard, hshard, (of_gather_eq_ok hread).1, rfl⟩, ?_⟩
    rw [← hsegments]
    have hkey : g.key? = some key := h
    unfold Gathered.key? at hkey
    split at hkey
    · cases hkey
    · exact (Option.some.inj hkey).symm

/-- In the origin of a shard the same modules have the same code at the same paths. -/
theorem ModuleOrder.mem_parts_origin_iff
    (hsteady : ∀ shard ∈ shards, ∀ x ∈ shard.contents, x.Steady s)
    (hnames : ∀ shard ∈ shards, ∀ f ∈ shard.fragments, '\x00' ∉ f.module.toList)
    (hfree : CollisionFree (o.keyTexts s shards)) (hshard : shard ∈ shards) :
    o.origin s shards shard ∈ shards ∧
      ∀ part, part ∈ (o.shardSegments s (o.origin s shards shard)).map KeyPart.ofSegment ↔
        part ∈ (o.shardSegments s shard).map KeyPart.ofSegment := by
  cases hkey : o.key? s shard with
  | none =>
    rw [origin_of_key?_eq_none hkey]
    exact ⟨hshard, fun _ => Iff.rfl⟩
  | some key =>
    rw [origin_of_key?_eq_some hkey]
    cases hasker : o.asker? s shards key with
    | none => exact ⟨hshard, fun _ => Iff.rfl⟩
    | some first =>
      obtain ⟨hfirst, hfirstKey⟩ := of_asker?_eq_some hasker
      obtain ⟨hl, hofl⟩ := requested_of_key? (hsteady first hfirst) hfirst hfirstKey
      obtain ⟨hl', hofl'⟩ := requested_of_key? (hsteady shard hshard) hshard hkey
      exact ⟨hfirst, hl.mem_parts_iff hl' hnames hfree (hofl.symm.trans hofl')⟩

/-- A shard has a code segment with the bytes of some other shard's segment just when one of its
segments has the same digest. -/
theorem ModuleOrder.exists_mem_code_iff (hfree : CollisionFree (shards.flatMap (o.hashed s)))
    {first : Shard} (hfirst : first ∈ shards) (hshard : shard ∈ shards) {a : CodeSegment}
    (ha : a ∈ o.shardSegments s first) (p : Compression → Prop) :
    (∃ own ∈ shard.code, a.entry.SameBytes s own ∧ p own.compression) ↔
      ∃ b ∈ o.shardSegments s shard, a.digest = b.digest ∧ p b.entry.compression := by
  obtain ⟨bytes, hmem, hread, hdigest⟩ := exists_bytes_of_mem_shardSegments ha
  constructor
  · rintro ⟨own, hown, ⟨x, hx, hownx⟩, hp⟩
    obtain ⟨⟨f, hf, he⟩, hdex⟩ := Shard.mem_code.1 hown
    obtain ⟨i, hi⟩ := Option.isSome_iff_exists.1 hdex
    refine ⟨_, mem_shardSegments.2 ⟨f, hf, own, he, i, x, hi, hownx, rfl⟩, ?_, hp⟩
    rw [hread] at hx
    rw [hdigest, Except.ok.inj hx]
  · rintro ⟨b, hb, hab, hp⟩
    obtain ⟨x, hx, hbread, hbdigest⟩ := exists_bytes_of_mem_shardSegments hb
    rw [hdigest, hbdigest] at hab
    have hsame : bytes = x := hfree bytes (List.mem_flatMap.2 ⟨first, hfirst, hmem⟩) x
      (List.mem_flatMap.2 ⟨shard, hshard, hx⟩) hab
    obtain ⟨f, hf, e, he, i, _, hi, -, rfl⟩ := mem_shardSegments.1 hb
    have hcode : e ∈ shard.code :=
      Shard.mem_code.2 ⟨⟨f, hf, he⟩, Option.isSome_iff_exists.2 ⟨i, hi⟩⟩
    exact ⟨e, hcode, ⟨bytes, hread, hsame ▸ hbread⟩, hp⟩

/-- Let shards be merged one after the other with one cache, empty at first.  The code segments of
each package that is made are those of the shard's origin, renumbered: of the first shard that asked
for the same key, which has the same code at the same paths.  Each has the bytes of some code
segment of the shard itself.  All have the bytes and the compression of some code segment of the
shard itself just when every segment that is kept of the origin has, in bytes and compression, its
like among the segments of the shard. -/
theorem ModuleOrder.code_of_mergeAll (o : ModuleOrder) (shards : List Shard) (s : Storage)
    (hsteady : ∀ shard ∈ shards, ∀ x ∈ shard.contents, x.Steady s)
    (hnames : ∀ shard ∈ shards, ∀ f ∈ shard.fragments, '\x00' ∉ f.module.toList)
    (hfree : CollisionFree (shards.flatMap (o.hashed s))) :
    List.Forall₂ (fun shard answer => ∀ merged, answer = .ok merged →
        let origin := o.origin s shards shard
        let code := merged.fragment.entries.filter (·.path.isDex)
        (code = renumber (o.shardSegments s origin) ∧ origin ∈ shards ∧
          ∀ part, part ∈ (o.shardSegments s origin).map KeyPart.ofSegment ↔
            part ∈ (o.shardSegments s shard).map KeyPart.ofSegment) ∧
        (∀ e ∈ code, ∃ own ∈ shard.code, e.SameBytes s own) ∧
        ((∀ e ∈ code, ∃ own ∈ shard.code, e.SameBytes s own ∧ e.compression = own.compression) ↔
          ∀ a ∈ orderedSegments (o.shardSegments s origin), ∃ b ∈ o.shardSegments s shard,
            a.digest = b.digest ∧ a.entry.compression = b.entry.compression))
      shards (mergeAll (shards.map (o, ·)) { storage := s }).1 := by
  have hs : ∀ x ∈ contentsOf shards, x.Steady s := by
    rintro x ⟨shard, hshard, hx⟩
    exact hsteady shard hshard x hx
  have hanswers := forall₂_mergeAll (w := { storage := s }) (.refl hs)
    (fun shard hshard x hx => ⟨shard, hshard, hx⟩) (MergeCache.traces_empty o s)
  refine ((List.forall₂_and_left shards _).2 ⟨fun _ h => h, hanswers⟩).imp ?_
  rintro shard answer ⟨hshard, hanswer⟩ merged hmerged
  intro origin code
  obtain ⟨g, hread, hfragment⟩ := hanswer merged hmerged
  have hcode : code = renumber (o.shardSegments s origin) := by
    show merged.fragment.entries.filter (·.path.isDex) = _
    rw [hfragment]
    exact filter_isDex_fragmentWith hread _
  obtain ⟨horigin, hparts⟩ := mem_parts_origin_iff hsteady hnames
    (hfree.subset (keyTexts_subset_hashed o s shards)) hshard
  have hown {a : CodeSegment} (ha : a ∈ orderedSegments (o.shardSegments s origin)) :=
    exists_mem_code_iff hfree horigin hshard (mem_of_mem_orderedSegments ha)
  refine ⟨⟨hcode, horigin, hparts⟩, ?_, ?_⟩
  · rw [hcode]
    refine (forall_mem_renumber_iff fun _ _ => rfl).2 fun a ha => ?_
    -- the part of the segment is among the shard's, so one of its segments has the digest
    have hpart := (hparts _).1 (List.mem_map_of_mem (mem_of_mem_orderedSegments ha))
    obtain ⟨b, hb, hab⟩ := List.mem_map.1 hpart
    obtain ⟨own, hmem, hsame, -⟩ :=
      (hown ha fun _ => True).2 ⟨b, hb, (congrArg KeyPart.digest hab).symm, trivial⟩
    exact ⟨own, hmem, hsame⟩
  · rw [hcode]
    refine (forall_mem_renumber_iff fun _ _ => rfl).trans ?_
    exact forall₂_congr fun a ha => hown ha _

/-- The code of one module, declared with some compression. -/
def declaredFragments (compression : Compression) : List Fragment :=
  [.ofMaster "base" ⟨"app", ∅, ∅⟩ [⟨.dex 1, ⟨1, .memory [1]⟩, compression⟩]]

/-- Two shards with the same code, which the first declares compressed and the second
uncompressed. -/
def redeclaredShards : List Shard :=
  [⟨0, [], declaredFragments .compressed⟩, ⟨1, [], declaredFragments .uncompressed⟩]

/-- What merging the two with one cache ends with. -/
def redeclaredAnswers : List (Except Fault Merged) :=
  (mergeAll (redeclaredShards.map (⟨["base"], none⟩, ·)) {}).1

/-- The second shard gets its code compressed. -/
theorem code_of_mergeAll_redeclaredShards :
    ∃ merged, redeclaredAnswers[1]? = some (.ok merged) ∧
      let own := Shard.code ⟨1, [], declaredFragments .uncompressed⟩
      (∀ e ∈ merged.fragment.entries.filter (·.path.isDex), ∃ e' ∈ own, e.SameBytes {} e') ∧
        ¬ ∀ e ∈ merged.fragment.entries.filter (·.path.isDex), ∃ e' ∈ own,
          e.SameBytes {} e' ∧ e.compression = e'.compression := by
  have hmade : (redeclaredAnswers[1]?.bind (·.toOption)).isSome := by decide +kernel
  obtain ⟨merged, hmade⟩ := Option.isSome_iff_exists.1 hmade
  obtain ⟨answer, hanswer, hmerged⟩ := Option.bind_eq_some_iff.1 hmade
  obtain rfl : answer = .ok merged := by
    cases answer with
    | error fault => cases hmerged
    | ok m => exact congrArg Except.ok (Option.some.inj hmerged)
  obtain ⟨hlt, hget⟩ := List.getElem?_eq_some_iff.1 hanswer
  have hcode := ModuleOrder.code_of_mergeAll ⟨["base"], none⟩ redeclaredShards {}
    (fun _ _ _ _ => Content.steady_of_digest?_eq_none rfl) (by decide) (by decide +kernel)
  obtain ⟨-, hbytes, hdeclared⟩ := (List.forall₂_iff_get.1 hcode).2 1 (by decide) hlt merged hget
  exact ⟨merged, hanswer, hbytes, fun h => absurd (hdeclared.1 h) (by decide +kernel)⟩

/-- The code segments of a package need not have the compression of any code segment of its shard
with the same bytes. -/
theorem not_forall_code_declared :
    ¬ ∀ (o : ModuleOrder) (shards : List Shard) (s : Storage) (made : List Merged),
      (mergeAll (shards.map (o, ·)) { storage := s }).1 = made.map .ok →
        List.Forall₂ (fun shard merged =>
          ∀ e ∈ merged.fragment.entries.filter (·.path.isDex), ∃ own ∈ shard.code,
            e.SameBytes s own ∧ e.compression = own.compression) shards made := by
  intro h
  -- both packages are made, and have their one segment compressed
  obtain ⟨hmade, hstored⟩ : redeclaredAnswers =
        (redeclaredAnswers.filterMap (·.toOption)).map .ok ∧
      (redeclaredAnswers.filterMap (·.toOption)).map (fun merged =>
        (merged.fragment.entries.filter (·.path.isDex)).map (·.compression)) =
          [[.compressed], [.compressed]] := by decide +kernel
  have hown : ∀ own ∈ Shard.code ⟨1, [], declaredFragments .uncompressed⟩,
      own.compression = .uncompressed := by decide +kernel
  have hdeclared := h ⟨["base"], none⟩ redeclaredShards {} _ hmade
  generalize redeclaredAnswers.filterMap (·.toOption) = made at *
  have hlength : made.length = 2 := by simpa using congrArg List.length hstored
  obtain ⟨first, second, rfl⟩ := List.length_eq_two.1 hlength
  obtain ⟨-, hsecond⟩ := List.forall₂_cons.1 hdeclared
  have hdeclaredSecond := (List.forall₂_cons.1 hsecond).1
  obtain ⟨-, hcompressed⟩ := List.cons.inj hstored
  have hsegments := (List.cons.inj hcompressed).1
  obtain ⟨e, he, hstoredSegment⟩ := List.mem_map.1 (hsegments ▸ List.mem_singleton_self _)
  obtain ⟨own, hmem, -, hsame⟩ := hdeclaredSecond e he
  rw [hstoredSegment, hown own hmem] at hsame
  cases hsame

end BundlePackaging
