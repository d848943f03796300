import BundlePackaging.Proofs.Reading
import BundlePackaging.Proofs.TargetingUnion

/-!
# What the entries of a shard unite to

Entries are united one by one.  A step either lists a code segment, or keeps a plain entry as the
first at its path, or meets an earlier entry at that path whose bytes agree.  So the plain entries
of a union are the first occurrences by path, every entry left out agrees with the one that was
kept, and the segments are those of all entries, in order.

## Main definitions

* `Shard.contents`, `contentsOf` — the contents that one or some shards consist of.
* `Shard.code` — the entries of a shard that are code segments.
* `Contribution.segment?`, `ModuleOrder.shardSegments` — the segments that entries contribute.

## Main results

* `ModuleOrder.of_gather_eq_ok` — what has to hold for a shard to be read.
* `ModuleOrder.restsOn_gather` — the answer rests on the bytes of the shard's contents.
* `ModuleOrder.plain_of_gather`, `ModuleOrder.segments_of_gather`, `ModuleOrder.agrees_of_gather` —
  the three statements above.
-/

namespace BundlePackaging

variable {C : Set Content} {s t : Storage} {n : Nat}

/-! ### One entry -/

/-- The entries that are not code segments. -/
def plainOf (cs : List Contribution) : List Contribution :=
  cs.filter fun c => !c.entry.path.isDex

theorem plainOf_cons (c : Contribution) (cs : List Contribution) :
    plainOf (c :: cs) = if c.entry.path.isDex then plainOf cs else c :: plainOf cs := by
  unfold plainOf
  rw [List.filter_cons]
  cases c.entry.path.isDex <;> rfl

/-- The code segment that an entry contributes, if it is one and can be read. -/
def Contribution.segment? (s : Storage) (c : Contribution) : Option CodeSegment :=
  match c.entry.path.dexIndex?, c.entry.content.read s with
  | some i, .ok bytes => some ⟨c.module, c.position, i, c.entry, .ofContent bytes⟩
  | _, _ => none

namespace Union

/-- What one more entry does to a union: it is listed as a segment, kept as the first at its path,
or agrees with the first at its path. -/
theorem of_add_eq_ok {u v : Union} {c : Contribution} (h : (u.add n c s).1 = .ok v) :
    (∃ i d, c.entry.path.dexIndex? = some i ∧ (c.entry.digest s).1 = .ok d ∧
      v = { u with segments := u.segments ++ [⟨c.module, c.position, i, c.entry, d⟩] }) ∨
    (c.entry.path.dexIndex? = none ∧ c.entry.path ∉ u.plain.map (·.entry.path) ∧
      v = { u with plain := u.plain ++ [c] }) ∨
    (c.entry.path.dexIndex? = none ∧ v = u ∧ ∃ first ∈ u.plain,
      first.entry.path = c.entry.path ∧ (first.entry.sameContent c.entry s).1 = .ok true) := by
  unfold add at h
  cases hi : c.entry.path.dexIndex? with
  | some i =>
    rw [hi] at h
    obtain ⟨d, hd, h⟩ := Reading.of_bind_eq_ok h
    exact .inl ⟨i, d, rfl, hd, (Except.ok.inj h).symm⟩
  | none =>
    rw [hi] at h
    cases hf : u.plain.find? fun first => first.entry.path = c.entry.path with
    | none =>
      rw [hf] at h
      refine .inr (.inl ⟨rfl, ?_, (Except.ok.inj h).symm⟩)
      simpa using hf
    | some first =>
      rw [hf] at h
      obtain ⟨same, hsame, h⟩ := Reading.of_bind_eq_ok h
      cases same with
      | false => cases h
      | true =>
        have hpath : first.entry.path = c.entry.path := by simpa using List.find?_some hf
        exact .inr (.inr ⟨rfl, (Except.ok.inj h).symm, first, List.mem_of_find?_eq_some hf, hpath,
          hsame⟩)

theorem restsOn_add {u : Union} {c : Contribution} (hu : ∀ x ∈ u.plain, x.entry.content ∈ C)
    (hc : c.entry.content ∈ C) : RestsOn C (u.add n c) := by
  unfold add
  cases c.entry.path.dexIndex? with
  | some i => exact (Entry.restsOn_digest hc).bind fun _ _ _ => .pure _
  | none =>
    cases hf : u.plain.find? fun first => first.entry.path = c.entry.path with
    | none => exact .pure _
    | some first =>
      refine (Entry.restsOn_sameContent (hu _ (List.mem_of_find?_eq_some hf)) hc).bind ?_
      intro _ same _
      cases same with
      | true => exact .pure _
      | false => exact .throw _

/-- A union keeps no plain entries but those that it is given. -/
theorem content_mem_of_add {u v : Union} {c : Contribution}
    (hu : ∀ x ∈ u.plain, x.entry.content ∈ C) (hc : c.entry.content ∈ C)
    (h : (u.add n c s).1 = .ok v) : ∀ x ∈ v.plain, x.entry.content ∈ C := by
  rcases of_add_eq_ok h with ⟨i, d, -, -, rfl⟩ | ⟨-, -, rfl⟩ | ⟨-, rfl, -⟩
  · exact hu
  · intro x hx
    rcases List.mem_append.1 hx with hx | hx
    · exact hu x hx
    · rwa [List.mem_singleton.1 hx]
  · exact hu

/-! ### All entries -/

theorem restsOn_addAll {u : Union} {cs : List Contribution}
    (hu : ∀ x ∈ u.plain, x.entry.content ∈ C) (hcs : ∀ c ∈ cs, c.entry.content ∈ C) :
    RestsOn C (u.addAll n cs) := by
  induction cs generalizing u with
  | nil => exact .pure _
  | cons c cs ih =>
    obtain ⟨hc, hcs⟩ := List.forall_mem_cons.1 hcs
    exact (restsOn_add hu hc).bind fun s v hv => ih (content_mem_of_add hu hc hv) hcs

theorem of_addAll_cons_eq_ok {u v : Union} {c : Contribution} {cs : List Contribution}
    (h : (u.addAll n (c :: cs) s).1 = .ok v) :
    ∃ w, (u.add n c s).1 = .ok w ∧ (w.addAll n cs (u.add n c s).2).1 = .ok v :=
  Reading.of_bind_eq_ok h

/-- A union grows by the first occurrences at the paths that it does not have yet. -/
theorem plain_append_of_addAll {u v : Union} {cs : List Contribution}
    (h : (u.addAll n cs s).1 = .ok v) :
    v.plain = u.plain ++ (firstsBy (·.entry.path) (plainOf cs)).filter fun c =>
      c.entry.path ∉ u.plain.map (·.entry.path) := by
  induction cs generalizing u s with
  | nil =>
    obtain rfl := Except.ok.inj h
    exact (List.append_nil _).symm
  | cons c cs ih =>
    obtain ⟨w, hw, h⟩ := of_addAll_cons_eq_ok h
    rw [ih h, plainOf_cons]
    -- a segment is not plain; a new path is kept in front; a path that was met is left out
    rcases of_add_eq_ok hw with ⟨i, d, hi, -, rfl⟩ | ⟨hi, hnew, rfl⟩ | ⟨hi, rfl, x, hx, hpath, -⟩
    · rw [if_pos (by simp [EntryPath.isDex, hi])]
    · rw [if_neg (by simp [EntryPath.isDex, hi]), firstsBy, List.append_assoc,
        List.filter_cons_of_pos (by simpa using hnew), List.filter_filter, List.singleton_append]
      congr 2
      refine List.filter_congr fun x _ => ?_
      rw [Bool.eq_iff_iff, List.map_append]
      simp [List.mem_append]
    · have hmem : c.entry.path ∈ w.plain.map (·.entry.path) :=
        hpath ▸ List.mem_map_of_mem (f := (·.entry.path)) hx
      rw [if_neg (by simp [EntryPath.isDex, hi]), firstsBy,
        List.filter_cons_of_neg (by simpa using hmem), List.filter_filter]
      congr 1
      refine List.filter_congr fun y _ => ?_
      by_cases hy : y.entry.path ∈ w.plain.map (·.entry.path)
      · simp [hy]
      · have hne : y.entry.path ≠ c.entry.path := fun heq => hy (heq ▸ hmem)
        simp [hy, hne]

/-- The plain entries of a union are the first occurrences by path. -/
theorem plain_of_addAll {v : Union} {cs : List Contribution}
    (h : (addAll n {} cs s).1 = .ok v) : v.plain = firstsBy (·.entry.path) (plainOf cs) := by
  rw [plain_append_of_addAll h]
  simp

/-- Segments are listed with the digests of their bytes. -/
theorem segments_append_of_addAll {u v : Union} {cs : List Contribution} (hst : t.Alike C s)
    (hu : ∀ x ∈ u.plain, x.entry.content ∈ C) (hcs : ∀ c ∈ cs, c.entry.content ∈ C)
    (h : (u.addAll n cs t).1 = .ok v) :
    v.segments = u.segments ++ cs.filterMap (·.segment? s) := by
  -- every entry may leave a digest in the storage, which stays like `s` all the same
  induction cs generalizing u t with
  | nil =>
    obtain rfl := Except.ok.inj h
    exact (List.append_nil _).symm
  | cons c cs ih =>
    obtain ⟨hc, hcs⟩ := List.forall_mem_cons.1 hcs
    obtain ⟨w, hw, h⟩ := of_addAll_cons_eq_ok h
    rw [ih (restsOn_add hu hc hst).2 (content_mem_of_add hu hc hw) hcs h, List.filterMap_cons]
    rcases of_add_eq_ok hw with ⟨i, d, hi, hd, rfl⟩ | ⟨hi, -, rfl⟩ | ⟨hi, rfl, -⟩
    · obtain ⟨bytes, hread, rfl⟩ := (Entry.digest_eq_ok (hst.left _ hc)).1 hd
      rw [hst.read] at hread
      simp [Contribution.segment?, hi, hread]
    · simp [Contribution.segment?, hi]
    · simp [Contribution.segment?, hi]

/-- Every plain entry agrees with the entry that the union keeps at its path. -/
theorem agrees_of_addAll {u v : Union} {cs : List Contribution} (hst : t.Alike C s)
    (hu : ∀ x ∈ u.plain, x.entry.content ∈ C) (hcs : ∀ c ∈ cs, c.entry.content ∈ C)
    (h : (u.addAll n cs t).1 = .ok v) :
    ∀ c ∈ plainOf cs, ∃ x ∈ v.plain, x.entry.path = c.entry.path ∧
      x.entry.Agrees s c.entry := by
  induction cs generalizing u t with
  | nil => simp [plainOf]
  | cons c cs ih =>
    obtain ⟨hc, hcs⟩ := List.forall_mem_cons.1 hcs
    obtain ⟨w, hw, h⟩ := of_addAll_cons_eq_ok h
    -- what was kept once is kept to the end, so an agreement that was found early lasts
    have hkept : ∀ x ∈ w.plain, x ∈ v.plain := by
      rw [plain_append_of_addAll h]
      exact fun x hx => List.mem_append_left _ hx
    have hrest := ih (restsOn_add hu hc hst).2 (content_mem_of_add hu hc hw) hcs h
    rw [plainOf_cons]
    rcases of_add_eq_ok hw with ⟨i, d, hi, -, rfl⟩ | ⟨hi, -, rfl⟩ | ⟨hi, rfl, x, hx, hpath, hsame⟩
    · rw [if_pos (by simp [EntryPath.isDex, hi])]
      exact hrest
    · rw [if_neg (by simp [EntryPath.isDex, hi])]
      refine List.forall_mem_cons.2 ⟨⟨c, hkept c (by simp), rfl, .inl rfl⟩, hrest⟩
    · rw [if_neg (by simp [EntryPath.isDex, hi])]
      have hagrees := Entry.sameContent_eq_true (hst.left _ (hu x hx)) (hst.left _ hc) hsame
      exact List.forall_mem_cons.2 ⟨⟨x, hkept x hx, hpath, hagrees.congr hst.disk⟩, hrest⟩

end Union

/-! ### A shard -/

/-- The contents that a shard consists of. -/
def Shard.contents (shard : Shard) : List Content :=
  shard.fragments.flatMap fun f => f.entries.map (·.content)

theorem Shard.mem_contents {shard : Shard} {c : Content} :
    c ∈ shard.contents ↔ ∃ f ∈ shard.fragments, ∃ e ∈ f.entries, e.content = c := by
  simp only [contents, List.mem_flatMap, List.mem_map]

/-- The code segments among the entries of a shard. -/
def Shard.code (shard : Shard) : List Entry :=
  (shard.fragments.flatMap (·.entries)).filter (·.path.isDex)

theorem Shard.mem_code {shard : Shard} {e : Entry} :
    e ∈ shard.code ↔ (∃ f ∈ shard.fragments, e ∈ f.entries) ∧ e.path.isDex := by
  rw [code, List.mem_filter, List.mem_flatMap]

/-- The contents that some shards consist of. -/
def contentsOf (shards : List Shard) : Set Content :=
  { c | ∃ shard ∈ shards, c ∈ shard.contents }

namespace ModuleOrder

variable {o : ModuleOrder} {shard : Shard} {g : Gathered}

theorem mem_arrange {fs : List Fragment} {f : Fragment} : f ∈ o.arrange fs ↔ f ∈ fs :=
  (sortBy_perm _ fs).mem_iff

theorem pairwise_position_arrange (o : ModuleOrder) (fs : List Fragment) :
    (o.arrange fs).Pairwise fun f f' => o.position f.module ≤ o.position f'.module :=
  sortBy_pairwise_of_key (fun f : Fragment => o.position f.module) fs

/-- The fragments of a module keep their order. -/
theorem filter_module_arrange (o : ModuleOrder) (fs : List Fragment) (name : String) :
    (o.arrange fs).filter (·.module = name) = fs.filter (·.module = name) := by
  apply filter_sortBy
  intro f g hf hg
  have hf : f.module = name := of_decide_eq_true hf
  have hg : g.module = name := of_decide_eq_true hg
  rw [hf, hg]
  exact decide_eq_true (Nat.le_refl _)

theorem mem_contributions {fs : List Fragment} {c : Contribution} :
    c ∈ o.contributions fs ↔
      ∃ f ∈ fs, ∃ e ∈ f.entries, c = ⟨f.module, o.position f.module, e⟩ := by
  simp only [contributions, List.mem_flatMap, List.mem_map, eq_comm]

/-- What a shard contributes, in the order of the modules. -/
def shardContributions (o : ModuleOrder) (shard : Shard) : List Contribution :=
  o.contributions (o.arrange shard.fragments)

theorem mem_shardContributions {c : Contribution} :
    c ∈ o.shardContributions shard ↔ ∃ f ∈ shard.fragments, ∃ e ∈ f.entries,
      c = ⟨f.module, o.position f.module, e⟩ := by
  simp only [shardContributions, mem_contributions, mem_arrange]

/-- The code segments of a shard, in the order of the modules. -/
def shardSegments (o : ModuleOrder) (s : Storage) (shard : Shard) : List CodeSegment :=
  (o.shardContributions shard).filterMap (·.segment? s)

theorem mem_shardSegments {a : CodeSegment} :
    a ∈ o.shardSegments s shard ↔ ∃ f ∈ shard.fragments, ∃ e ∈ f.entries, ∃ i bytes,
      e.path.dexIndex? = some i ∧ e.content.read s = .ok bytes ∧
        a = ⟨f.module, o.position f.module, i, e, .ofContent bytes⟩ := by
  unfold shardSegments
  rw [List.mem_filterMap]
  constructor
  · rintro ⟨c, hc, ha⟩
    obtain ⟨f, hf, e, he, rfl⟩ := mem_shardContributions.1 hc
    unfold Contribution.segment? at ha
    split at ha
    · next i bytes hi hbytes =>
      exact ⟨f, hf, e, he, i, bytes, hi, hbytes, (Option.some.inj ha).symm⟩
    · cases ha
  · rintro ⟨f, hf, e, he, i, bytes, hi, hbytes, rfl⟩
    refine ⟨_, mem_shardContributions.2 ⟨f, hf, e, he, rfl⟩, ?_⟩
    simp only [Contribution.segment?, hi, hbytes]

theorem content_mem_of_shardContributions {c : Contribution}
    (h : c ∈ o.shardContributions shard) : c.entry.content ∈ shard.contents := by
  obtain ⟨f, hf, e, he, rfl⟩ := mem_shardContributions.1 h
  exact Shard.mem_contents.2 ⟨f, hf, e, he, rfl⟩

/-- What has to hold for a shard to be read. -/
theorem of_gather_eq_ok (h : (o.gather shard s).1 = .ok g) :
    (∀ f ∈ shard.fragments, f.module ∈ o.names) ∧
      o.arrange shard.fragments = g.first :: g.others ∧
      uniteTargetings shard.index .master (o.arrange shard.fragments) = .ok g.targeting ∧
      (Union.addAll shard.index {} (o.shardContributions shard) s).1 = .ok g.union := by
  unfold gather at h
  cases hu : o.unknown? shard.fragments with
  | some fault =>
    rw [hu] at h
    cases h
  | none =>
    rw [hu] at h
    have hknown : ∀ f ∈ shard.fragments, f.module ∈ o.names := by
      simpa [unknown?] using hu
    unfold shardContributions
    cases harr : o.arrange shard.fragments with
    | nil =>
      rw [harr] at h
      cases h
    | cons first others =>
      rw [harr] at h
      obtain ⟨targeting, ht, h⟩ := Reading.of_bind_eq_ok h
      obtain ⟨union, hunion, h⟩ := Reading.of_bind_eq_ok h
      obtain rfl := Except.ok.inj h
      exact ⟨hknown, rfl, ht, hunion⟩

/-- What is read of a shard rests on the bytes of its contents. -/
theorem restsOn_gather (hC : ∀ c ∈ shard.contents, c ∈ C) : RestsOn C (o.gather shard) := by
  unfold gather
  cases o.unknown? shard.fragments with
  | some fault => exact .throw fault
  | none =>
    cases harr : o.arrange shard.fragments with
    | nil => exact .throw _
    | cons first others =>
      have hcs : ∀ c ∈ o.contributions (first :: others), c.entry.content ∈ C := fun c hc =>
        hC _ (content_mem_of_shardContributions (by rwa [shardContributions, harr]))
      refine (RestsOn.lift _).bind fun _ targeting _ => ?_
      exact (Union.restsOn_addAll (by simp) hcs).bind fun _ union _ => .pure _

/-- The plain entries that are read of a shard are the first occurrences by path. -/
theorem plain_of_gather (h : (o.gather shard s).1 = .ok g) :
    g.union.plain = firstsBy (·.entry.path) (plainOf (o.shardContributions shard)) :=
  Union.plain_of_addAll (of_gather_eq_ok h).2.2.2

/-- The segments that are read of a shard are those of its entries, in the order of the modules. -/
theorem segments_of_gather (hst : t.Alike C s) (hC : ∀ c ∈ shard.contents, c ∈ C)
    (h : (o.gather shard t).1 = .ok g) : g.union.segments = o.shardSegments s shard := by
  rw [Union.segments_append_of_addAll hst (by simp)
    (fun c hc => hC _ (content_mem_of_shardContributions hc)) (of_gather_eq_ok h).2.2.2]
  rfl

/-- Every plain entry of a shard agrees with the one that is kept at its path. -/
theorem agrees_of_gather (hst : t.Alike C s) (hC : ∀ c ∈ shard.contents, c ∈ C)
    (h : (o.gather shard t).1 = .ok g) :
    ∀ c ∈ plainOf (o.shardContributions shard), ∃ x ∈ g.union.plain,
      x.entry.path = c.entry.path ∧ x.entry.Agrees s c.entry :=
  Union.agrees_of_addAll hst (by simp)
    (fun c hc => hC _ (content_mem_of_shardContributions hc)) (of_gather_eq_ok h).2.2.2

end ModuleOrder
end BundlePackaging
