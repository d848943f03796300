import BundlePackaging.Proofs.KeyText
import BundlePackaging.Proofs.Uniting

/-!
# The parts of a key determine the code of a package

A key forgets in which order segments came, how often, and where their modules stand.  In one order
of modules none of this is lost: a module's name gives its position, and a segment's path its
number.  So two lists of segments with the same parts are put into the same order, and the same of
them are left out.

## Main definitions

* `CodeSegment.Placed` — a segment that has the position of its module and the number of its path.
* `CodeSegment.OnePerPath` — no module has segments of different contents at one path.
* `ModuleOrder.Requested` — the segments that are renumbered when shards are merged.

## Main results

* `map_digest_orderedSegments` — **the same parts give the same contents in the same order.**
* `orderedSegments_eq_of_parts` — if a segment is known by its module and path, the same parts give
  the same segments in the same order.
-/

namespace BundlePackaging

variable {o : ModuleOrder} {s : Storage} {shard : Shard} {l l' : List CodeSegment}

/-! ### Segments in their places -/

namespace CodeSegment

/-- The segment has the position of its module in the order of modules and the number of its
path. -/
structure Placed (o : ModuleOrder) (a : CodeSegment) : Prop where
  /-- The module is in the order. -/
  known : a.module ∈ o.names
  /-- The position is that of the module. -/
  position : a.position = o.position a.module
  /-- The number is that of the path. -/
  index : a.entry.path.dexIndex? = some a.index

theorem Placed.delimited {a : CodeSegment} (h : a.Placed o) (hname : '\x00' ∉ a.module.toList) :
    (KeyPart.ofSegment a).Delimited :=
  KeyPart.delimited_ofSegment hname (Option.isSome_iff_exists.2 ⟨_, h.index⟩)

theorem Placed.of_mem_shardSegments {a : CodeSegment}
    (hknown : ∀ f ∈ shard.fragments, f.module ∈ o.names) (h : a ∈ o.shardSegments s shard) :
    a.Placed o := by
  obtain ⟨f, hf, e, -, i, bytes, hi, -, rfl⟩ := ModuleOrder.mem_shardSegments.1 h
  exact ⟨hknown f hf, rfl, hi⟩

/-- Segments in one place belong to one module and have one path there. -/
theorem Placed.module_path_eq {a b : CodeSegment} (ha : a.Placed o) (hb : b.Placed o)
    (hposition : a.position = b.position) (hindex : a.index = b.index) :
    a.module = b.module ∧ a.entry.path = b.entry.path := by
  rw [ha.position, hb.position] at hposition
  have hpath := EntryPath.eq_dex_of_dexIndex? ha.index
  rw [hindex, ← EntryPath.eq_dex_of_dexIndex? hb.index] at hpath
  exact ⟨(List.idxOf_inj ha.known).1 hposition, hpath⟩

/-- No two segments of a list that belong to one module and have one path there have different
digests. -/
def OnePerPath (l : List CodeSegment) : Prop :=
  ∀ a ∈ l, ∀ b ∈ l, a.module = b.module → a.entry.path = b.entry.path → a.digest = b.digest

/-! ### The order of places -/

/-- What sorting and leaving out look at: position, number and digest. -/
def rank (a : CodeSegment) : ℕ × ℕ × Digest := (a.position, a.index, a.digest)

/-- Whether a rank may stand in front of another. -/
def rankPrecedes (x y : ℕ × ℕ × Digest) : Bool :=
  x.1 < y.1 || (x.1 = y.1 && x.2.1 ≤ y.2.1)

theorem rankPrecedes_iff {x y : ℕ × ℕ × Digest} :
    rankPrecedes x y ↔ x.1 < y.1 ∨ x.1 = y.1 ∧ x.2.1 ≤ y.2.1 := by
  simp [rankPrecedes]

theorem rankPrecedes_total (x y : ℕ × ℕ × Digest) : rankPrecedes x y ∨ rankPrecedes y x := by
  simp only [rankPrecedes_iff]
  omega

theorem rankPrecedes_trans (x y z : ℕ × ℕ × Digest) (hxy : rankPrecedes x y)
    (hyz : rankPrecedes y z) : rankPrecedes x z := by
  simp only [rankPrecedes_iff] at *
  omega

/-- Segments each of which may stand in front of the other are in one place. -/
theorem eq_of_precedes {a b : CodeSegment} (hab : a.precedes b) (hba : b.precedes a) :
    a.position = b.position ∧ a.index = b.index := by
  have hab' := rankPrecedes_iff.1 (show rankPrecedes a.rank b.rank from hab)
  have hba' := rankPrecedes_iff.1 (show rankPrecedes b.rank a.rank from hba)
  simp only [rank] at hab' hba'
  omega

end CodeSegment

open CodeSegment

/-! ### What the parts determine -/

theorem mem_of_mem_orderedSegments {a : CodeSegment} (h : a ∈ orderedSegments l) : a ∈ l :=
  (sortBy_perm _ l).mem_iff.1 ((firstsBy_sublist _ _).subset h)

/-- The same parts give the same contents in the same order. -/
theorem map_digest_orderedSegments (hl : ∀ a ∈ l, a.Placed o) (hl' : ∀ a ∈ l', a.Placed o)
    (hone : OnePerPath l)
    (hparts : ∀ p, p ∈ l.map KeyPart.ofSegment ↔ p ∈ l'.map KeyPart.ofSegment) :
    (orderedSegments l).map digest = (orderedSegments l').map digest := by
  -- a part tells the rank, because names tell positions and paths tell numbers
  have hrank {m m' : List CodeSegment} (hm : ∀ a ∈ m, a.Placed o) (hm' : ∀ a ∈ m', a.Placed o)
      (h : ∀ p, p ∈ m.map KeyPart.ofSegment → p ∈ m'.map KeyPart.ofSegment) (x : ℕ × ℕ × Digest)
      (hx : x ∈ m.map rank) : x ∈ m'.map rank := by
    obtain ⟨a, ha, rfl⟩ := List.mem_map.1 hx
    obtain ⟨b, hb, hab⟩ := List.mem_map.1 (h _ (List.mem_map_of_mem ha))
    obtain ⟨hmodule, hpath, hdigest⟩ := KeyPart.mk.inj hab
    refine List.mem_map.2 ⟨b, hb, ?_⟩
    have hposition : b.position = a.position := by
      rw [(hm' b hb).position, (hm a ha).position, hmodule]
    have hindex : b.index = a.index := by
      have hb' := (hm' b hb).index
      rw [hpath, (hm a ha).index] at hb'
      exact (Option.some.inj hb').symm
    rw [rank, rank, hposition, hindex, hdigest]
  have hranks := map_firstsBy_sortBy_eq rank rankPrecedes (fun x => x.2.2)
    rankPrecedes_total rankPrecedes_trans ?_
    (fun x => ⟨hrank hl hl' (fun p => (hparts p).1) x, hrank hl' hl (fun p => (hparts p).2) x⟩)
  · have hdigests := congrArg (List.map fun x : ℕ × ℕ × Digest => x.2.2) hranks
    rwa [List.map_map, List.map_map] at hdigests
  · intro a ha b hb hab hba
    obtain ⟨hposition, hindex⟩ := eq_of_precedes hab hba
    obtain ⟨hmodule, hpath⟩ := (hl a ha).module_path_eq (hl b hb) hposition hindex
    rw [rank, rank, hposition, hindex, hone a ha b hb hmodule hpath]

/-- If segments with one module and path are equal, the same parts give the same segments in the
same order. -/
theorem orderedSegments_eq_of_parts (hl : ∀ a ∈ l, a.Placed o)
    (heq : ∀ a ∈ l, ∀ b, b ∈ l ∨ b ∈ l' → a.module = b.module → a.entry.path = b.entry.path → a = b)
    (hparts : ∀ p, p ∈ l.map KeyPart.ofSegment ↔ p ∈ l'.map KeyPart.ofSegment) :
    orderedSegments l = orderedSegments l' := by
  have hmem (x : CodeSegment) : x ∈ l ↔ x ∈ l' := by
    constructor
    · intro hx
      obtain ⟨b, hb, hbx⟩ := List.mem_map.1 ((hparts _).1 (List.mem_map_of_mem hx))
      obtain ⟨hmodule, hpath, -⟩ := KeyPart.mk.inj hbx
      rwa [heq x hx b (.inr hb) hmodule.symm hpath.symm]
    · intro hx
      obtain ⟨b, hb, hbx⟩ := List.mem_map.1 ((hparts _).2 (List.mem_map_of_mem hx))
      obtain ⟨hmodule, hpath, -⟩ := KeyPart.mk.inj hbx
      rwa [← heq b hb x (.inr hx) hmodule hpath]
  have hids (x : CodeSegment) : x ∈ l.map id ↔ x ∈ l'.map id := by
    rw [List.map_id, List.map_id, hmem x]
  have hsegments := map_firstsBy_sortBy_eq id precedes digest
    (fun a b => rankPrecedes_total a.rank b.rank)
    (fun a b c => rankPrecedes_trans a.rank b.rank c.rank) ?_ hids
  · rwa [List.map_id, List.map_id] at hsegments
  · intro a ha b hb hab hba
    obtain ⟨hposition, hindex⟩ := eq_of_precedes hab hba
    obtain ⟨hmodule, hpath⟩ := (hl a ha).module_path_eq (hl b hb) hposition hindex
    exact heq a ha b (.inl hb) hmodule hpath

/-! ### Segments of requests -/

namespace ModuleOrder

variable {shards : List Shard}

/-- The code segments of one of some shards whose modules are in the order. -/
def Requested (o : ModuleOrder) (s : Storage) (shards : List Shard) (l : List CodeSegment) : Prop :=
  ∃ shard ∈ shards, (∀ f ∈ shard.fragments, f.module ∈ o.names) ∧ l = o.shardSegments s shard

/-- The texts of which the keys of some shards are the digests. -/
def keyTexts (o : ModuleOrder) (s : Storage) (shards : List Shard) : List (List UInt8) :=
  shards.map fun shard => keyText (o.shardSegments s shard)

theorem requested_of_gather {C : Set Content} {g : Gathered} (hs : ∀ c ∈ C, c.Steady s)
    (hshard : shard ∈ shards) (hC : ∀ c ∈ shard.contents, c ∈ C)
    (h : (o.gather shard s).1 = .ok g) : o.Requested s shards g.union.segments :=
  ⟨shard, hshard, (of_gather_eq_ok h).1, segments_of_gather (.refl hs) hC h⟩

theorem Requested.placed (h : o.Requested s shards l) : ∀ a ∈ l, a.Placed o := by
  obtain ⟨shard, -, hknown, rfl⟩ := h
  exact fun a ha => .of_mem_shardSegments hknown ha

theorem Requested.delimited (h : o.Requested s shards l)
    (hnames : ∀ shard ∈ shards, ∀ f ∈ shard.fragments, '\x00' ∉ f.module.toList) :
    ∀ a ∈ l, (KeyPart.ofSegment a).Delimited := by
  intro a ha
  have hplaced := h.placed a ha
  obtain ⟨shard, hshard, -, rfl⟩ := h
  obtain ⟨f, hf, e, -, i, bytes, -, -, rfl⟩ := mem_shardSegments.1 ha
  exact hplaced.delimited (hnames shard hshard f hf)

/-- Equal keys of requests come of equal parts. -/
theorem Requested.mem_parts_iff (h : o.Requested s shards l) (h' : o.Requested s shards l')
    (hnames : ∀ shard ∈ shards, ∀ f ∈ shard.fragments, '\x00' ∉ f.module.toList)
    (hfree : CollisionFree (o.keyTexts s shards))
    (hkey : MergeKey.ofSegments l = .ofSegments l') (part : KeyPart) :
    part ∈ l.map KeyPart.ofSegment ↔ part ∈ l'.map KeyPart.ofSegment := by
  have htext {m : List CodeSegment} (hm : o.Requested s shards m) :
      keyText m ∈ o.keyTexts s shards := by
    obtain ⟨shard, hshard, -, rfl⟩ := hm
    exact List.mem_map_of_mem hshard
  have htexts := hfree _ (htext h) _ (htext h') (MergeKey.mk.inj hkey)
  exact (keyText_eq_iff (h.delimited hnames) (h'.delimited hnames)).1 htexts part

end ModuleOrder
end BundlePackaging
