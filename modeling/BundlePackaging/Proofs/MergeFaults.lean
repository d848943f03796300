import BundlePackaging.Proofs.PackageContent

/-!
# When a shard cannot be read

Reading a shard looks for faults in an order: a shard without fragments, a module out of order,
targetings that differ, and last two entries at one path with different bytes.  Contents that are as
they were when their handles were made can all be read, and count as the same just when their bytes
are.  An entry is compared with the first at its path only, but if each has the bytes of the first
then any two have the same bytes.  So a shard of such contents can be read just when none of the
four is there, and otherwise the first of them is reported.

## Main definitions

* `Content.Intact` — a content that is as it was when its handle was made.
* `Shard.Conflicts` — two entries of a shard are at a path and have different bytes.

## Main results

* `Entry.sameContent_of_intact` — when contents count as the same.
* `Union.of_addAll_eq_error` — entries cannot be united only if two of them conflict.
* `ModuleOrder.of_gather_eq_error` — the order in which faults are looked for.
* `ModuleOrder.gather_ends` — **what reading a shard of intact contents ends with.**
-/

namespace BundlePackaging

variable {C : Set Content} {s t : Storage} {n : ℕ} {fault : Fault}

/-! ### Intact contents -/

/-- The bytes can be read, are as many as when the handle was made, and no digest of other bytes is
stored. -/
structure Content.Intact (c : Content) (s : Storage) : Prop where
  /-- No digest of other bytes is stored. -/
  steady : c.Steady s
  /-- The bytes can be read and their number has not changed. -/
  readable : ∃ bytes, c.read s = .ok bytes ∧ bytes.length = c.size

/-- A content in memory is intact, as long as no digest is stored for it. -/
theorem Content.intact_of_backingFile?_eq_none {c : Content} (h : c.backingFile? = none)
    (hnone : s.digest? c = none) : c.Intact s := by
  refine ⟨steady_of_digest?_eq_none hnone, ?_⟩
  unfold backingFile? at h
  unfold read size
  cases hsource : c.source with
  | memory bytes => exact ⟨bytes, rfl, rfl⟩
  | file name size =>
    rw [hsource] at h
    cases h

theorem Content.Intact.of_alike {c : Content} (h : c.Intact s) (hst : t.Alike C s) (hc : c ∈ C) :
    c.Intact t := by
  refine ⟨hst.left c hc, ?_⟩
  rw [hst.read]
  exact h.readable

namespace Entry

theorem exists_digest_eq_ok {e : Entry} (h : e.content.Intact s) : ∃ d, (e.digest s).1 = .ok d := by
  obtain ⟨bytes, hread, -⟩ := h.readable
  exact ⟨.ofContent bytes, (digest_eq_ok h.steady).2 ⟨bytes, hread, rfl⟩⟩

/-- Entries with intact contents count as the same just when they have the same bytes. -/
theorem sameContent_of_intact {a b : Entry} (ha : a.content.Intact s) (hb : b.content.Intact s)
    (hfree : CollisionFree (readableBytes s [a.content, b.content])) :
    (a.sameContent b s).1 = .ok (decide (a.content.read s = b.content.read s)) := by
  obtain ⟨x, hx, hxsize⟩ := ha.readable
  obtain ⟨y, hy, hysize⟩ := hb.readable
  unfold sameContent
  split
  · next hsame =>
    rw [hsame, decide_eq_true rfl]
    rfl
  · split
    · next hsize =>
      have hne : a.content.read s ≠ b.content.read s := by
        intro heq
        rw [hx, hy] at heq
        obtain rfl := Except.ok.inj heq
        exact hsize (hxsize.symm.trans hysize)
      rw [decide_eq_false hne]
      rfl
    · have hda : (a.digest s).1 = .ok (.ofContent x) :=
        (digest_eq_ok ha.steady).2 ⟨x, hx, rfl⟩
      have hdb : (b.digest (a.digest s).2).1 = .ok (.ofContent y) := by
        refine (digest_eq_ok (hb.steady.digest a.content)).2 ⟨y, ?_, rfl⟩
        rw [← hy]
        exact b.content.read_congr (a.disk_digest s)
      rw [Reading.bind_eq_of_eq_ok hda, Reading.bind_eq_of_eq_ok hdb, hx, hy]
      refine congrArg Except.ok ?_
      rw [decide_eq_decide, Except.ok.injEq]
      refine ⟨hfree x ?_ y ?_, congrArg _⟩
      · exact mem_readableBytes.2 ⟨a.content, List.mem_cons_self, hx⟩
      · exact mem_readableBytes.2 ⟨b.content, by simp, hy⟩

end Entry

/-! ### Uniting entries -/

namespace Union

/-- One more entry cannot be united only if an entry at its path has different bytes. -/
theorem of_add_eq_error {u : Union} {c : Contribution}
    (hu : ∀ x ∈ u.plain, x.entry.content.Intact s) (hc : c.entry.content.Intact s)
    (hfree : ∀ x ∈ u.plain, CollisionFree (readableBytes s [x.entry.content, c.entry.content]))
    (h : (u.add n c s).1 = .error fault) :
    ∃ x ∈ u.plain, x.entry.path = c.entry.path ∧ c.entry.path.isDex = false ∧
      x.entry.content.read s ≠ c.entry.content.read s ∧
      fault = .conflictingEntry c.entry.path n x.module c.module := by
  unfold add at h
  cases hi : c.entry.path.dexIndex? with
  | some i =>
    rw [hi] at h
    obtain ⟨d, hd⟩ := Entry.exists_digest_eq_ok hc
    rw [Reading.bind_eq_of_eq_ok hd] at h
    cases h
  | none =>
    rw [hi] at h
    cases hf : u.plain.find? fun first => first.entry.path = c.entry.path with
    | none =>
      rw [hf] at h
      cases h
    | some x =>
      rw [hf] at h
      have hx : x ∈ u.plain := List.mem_of_find?_eq_some hf
      have hpath : x.entry.path = c.entry.path := by simpa using List.find?_some hf
      have hsame := Entry.sameContent_of_intact (hu x hx) hc (hfree x hx)
      simp only at h
      rw [Reading.bind_eq_of_eq_ok hsame] at h
      refine ⟨x, hx, hpath, by simp [EntryPath.isDex, hi], ?_⟩
      by_cases hread : x.entry.content.read s = c.entry.content.read s
      · simp only [hread] at h
        cases h
      · simp only [hread] at h
        exact ⟨hread, (Except.error.inj h).symm⟩

/-- Entries cannot be united only if two of them are at one path and have different bytes. -/
theorem of_addAll_eq_error {u : Union} {cs : List Contribution} (hst : t.Alike C s)
    (hintact : ∀ c ∈ C, c.Intact s)
    (hfree : ∀ a ∈ C, ∀ b ∈ C, CollisionFree (readableBytes s [a, b]))
    (hu : ∀ x ∈ u.plain, x.entry.content ∈ C) (hcs : ∀ c ∈ cs, c.entry.content ∈ C)
    (h : (u.addAll n cs t).1 = .error fault) :
    ∃ x ∈ u.plain ++ cs, ∃ y ∈ u.plain ++ cs, x.entry.path = y.entry.path ∧
      y.entry.path.isDex = false ∧ x.entry.content.read s ≠ y.entry.content.read s ∧
      fault = .conflictingEntry y.entry.path n x.module y.module := by
  induction cs generalizing u t with
  | nil => cases h
  | cons c cs ih =>
    obtain ⟨hc, hcs⟩ := List.forall_mem_cons.1 hcs
    have hcIn : c ∈ u.plain ++ c :: cs := List.mem_append_right _ List.mem_cons_self
    rcases Reading.of_bind_eq_error h with h | ⟨v, hv, h⟩
    · have hintact' : ∀ a ∈ C, a.Intact t := fun a ha => (hintact a ha).of_alike hst ha
      have hfree' : ∀ x ∈ u.plain, CollisionFree (readableBytes t
          [x.entry.content, c.entry.content]) := by
        intro x hx
        rw [hst.readableBytes_eq]
        exact hfree _ (hu x hx) _ hc
      obtain ⟨x, hx, hpath, hdex, hread, hfault⟩ := of_add_eq_error
        (fun x hx => hintact' _ (hu x hx)) (hintact' _ hc) hfree' h
      rw [hst.read, hst.read] at hread
      exact ⟨x, List.mem_append_left _ hx, c, hcIn, hpath, hdex, hread, hfault⟩
    · obtain ⟨x, hx, y, hy, hconflict⟩ := ih (restsOn_add hu hc hst).2
        (content_mem_of_add hu hc hv) hcs h
      -- a union keeps no plain entries but those it was given
      have hsub : ∀ z ∈ v.plain ++ cs, z ∈ u.plain ++ c :: cs := by
        intro z hz
        rcases of_add_eq_ok hv with ⟨i, d, -, -, rfl⟩ | ⟨-, -, rfl⟩ | ⟨-, rfl, -⟩
        · simp only [List.mem_append, List.mem_cons] at hz ⊢
          tauto
        · simp only [List.mem_append, List.mem_cons, List.not_mem_nil, or_false] at hz ⊢
          tauto
        · simp only [List.mem_append, List.mem_cons] at hz ⊢
          tauto
      exact ⟨x, hsub x hx, y, hsub y hy, hconflict⟩

end Union

/-! ### Shards -/

namespace Shard

/-- Two entries of a shard are at a path, which is not that of a code segment, and have different
bytes. -/
def Conflicts (shard : Shard) (s : Storage) (q : EntryPath) : Prop :=
  q.isDex = false ∧ ∃ f ∈ shard.fragments, ∃ e ∈ f.entries, e.path = q ∧
    ∃ f' ∈ shard.fragments, ∃ e' ∈ f'.entries, e'.path = q ∧ e.content.read s ≠ e'.content.read s

instance (shard : Shard) (s : Storage) (q : EntryPath) : Decidable (shard.Conflicts s q) :=
  inferInstanceAs (Decidable (_ ∧ _))

/-- Along no dimension two fragments of a shard have different values. -/
def TargetingsAgree (shard : Shard) : Prop :=
  ∀ f ∈ shard.fragments, ∀ g ∈ shard.fragments, f.targeting.Agrees g.targeting

end Shard

namespace ModuleOrder

variable {o : ModuleOrder} {shard : Shard} {g : Gathered}

/-- The four faults that reading a shard can end with, each if none before it is there: a shard
without fragments, a module out of order, targetings that cannot be united, and entries that cannot
be. -/
theorem of_gather_eq_error (h : (o.gather shard s).1 = .error fault) :
    (shard.fragments = [] ∧ fault = .emptyShard shard.index) ∨
    (∃ f ∈ shard.fragments, f.module ∉ o.names ∧ fault = .unknownModule f.module) ∨
    (shard.fragments ≠ [] ∧ (∀ f ∈ shard.fragments, f.module ∈ o.names) ∧
      (uniteTargetings shard.index .master (o.arrange shard.fragments) = .error fault ∨
        (∃ u, uniteTargetings shard.index .master (o.arrange shard.fragments) = .ok u) ∧
          (Union.addAll shard.index {} (o.shardContributions shard) s).1 = .error fault)) := by
  unfold gather at h
  cases hunknown : o.unknown? shard.fragments with
  | some other =>
    rw [hunknown] at h
    cases h
    obtain ⟨f, hfind, rfl⟩ := Option.map_eq_some_iff.1 hunknown
    have hname : f.module ∉ o.names := by simpa using List.find?_some hfind
    exact .inr (.inl ⟨f, List.mem_of_find?_eq_some hfind, hname, rfl⟩)
  | none =>
    rw [hunknown] at h
    have hknown : ∀ f ∈ shard.fragments, f.module ∈ o.names := by simpa [unknown?] using hunknown
    have hempty : o.arrange shard.fragments = [] ↔ shard.fragments = [] := by
      rw [List.eq_nil_iff_forall_not_mem, List.eq_nil_iff_forall_not_mem]
      simp only [mem_arrange]
    unfold shardContributions
    cases harr : o.arrange shard.fragments with
    | nil =>
      rw [harr] at h
      cases h
      exact .inl ⟨hempty.1 harr, rfl⟩
    | cons first others =>
      rw [harr] at h
      have hnonempty : shard.fragments ≠ [] := by
        intro hnone
        rw [hempty.2 hnone] at harr
        cases harr
      refine .inr (.inr ⟨hnonempty, hknown, ?_⟩)
      rcases Reading.of_bind_eq_error h with h | ⟨targeting, htargeting, h⟩
      · exact .inl h
      · rcases Reading.of_bind_eq_error h with h | ⟨union, -, h⟩
        · exact .inr ⟨⟨targeting, htargeting⟩, h⟩
        · cases h

/-- Targetings that are united agree. -/
theorem targetingsAgree_of_uniteTargetings {u : Targeting}
    (h : uniteTargetings n .master (o.arrange shard.fragments) = .ok u) : shard.TargetingsAgree := by
  have hagree := uniteTargetings_cases n (o.arrange shard.fragments)
  simp only [mem_arrange] at hagree
  rcases hagree with ⟨hagree, -⟩ | ⟨-, d, module, first, second, herror⟩
  · exact hagree
  · rw [herror] at h
    cases h

section Intact

variable (hintact : ∀ c ∈ shard.contents, c.Intact s)
  (hfree : CollisionFree (readableBytes s shard.contents))
include hintact hfree

/-- The entries of a shard of intact contents cannot be united only if two of them conflict. -/
theorem of_addAll_shardContributions_eq_error
    (h : (Union.addAll shard.index {} (o.shardContributions shard) s).1 = .error fault) :
    ∃ q a b, fault = .conflictingEntry q shard.index a b ∧ shard.Conflicts s q := by
  let C : Set Content := { c | c ∈ shard.contents }
  have hpairs : ∀ a ∈ C, ∀ b ∈ C, CollisionFree (readableBytes s [a, b]) := by
    intro a ha b hb
    apply hfree.subset
    apply readableBytes_subset
    intro c hc
    rcases List.mem_cons.1 hc with rfl | hc
    · exact ha
    · rwa [List.mem_singleton.1 hc]
  obtain ⟨x, hx, y, hy, hpath, hdex, hread, rfl⟩ := Union.of_addAll_eq_error (C := C)
    (.refl fun c hc => (hintact c hc).steady) hintact hpairs (by simp)
    (fun c hc => content_mem_of_shardContributions hc) h
  obtain ⟨f, hf, e, he, rfl⟩ := mem_shardContributions.1 (by simpa using hx)
  obtain ⟨f', hf', e', he', rfl⟩ := mem_shardContributions.1 (by simpa using hy)
  exact ⟨_, _, _, rfl, hdex, f, hf, e, he, hpath, f', hf', e', he', rfl, hread⟩

/-- A shard of intact contents that can be read has no entries that conflict. -/
theorem not_conflicts_of_gather (h : (o.gather shard s).1 = .ok g) (q : EntryPath) :
    ¬ shard.Conflicts s q := by
  rintro ⟨hdex, f, hf, e, he, rfl, f', hf', e', he', hpath, hread⟩
  let C : Set Content := { c | c ∈ shard.contents }
  have hst : s.Alike C s := .refl fun c hc => (hintact c hc).steady
  -- both have the bytes of the entry that is kept at their path
  have hkept : e.path ∈ g.union.plain.map (·.entry.path) := by
    rw [plain_of_gather h, mem_map_firstsBy]
    refine List.mem_map.2 ⟨_, List.mem_filter.2 ⟨mem_shardContributions.2 ⟨f, hf, e, he, rfl⟩, ?_⟩,
      rfl⟩
    rw [hdex]
    rfl
  obtain ⟨x, hx, hxpath⟩ := List.mem_map.1 hkept
  have hleft := read_eq_of_gather hst (fun _ hc => hc) hfree h hx hf he hdex hxpath
  have hright := read_eq_of_gather hst (fun _ hc => hc) hfree h hx hf' he' (by rwa [hpath])
    (hxpath.trans hpath.symm)
  exact hread (hleft.symm.trans hright)

/-- Reading a shard of intact contents ends with the first of four faults that is there, and
otherwise succeeds. -/
theorem gather_ends (o : ModuleOrder) :
    (shard.fragments = [] ∧ (o.gather shard s).1 = .error (.emptyShard shard.index)) ∨
    (∃ f ∈ shard.fragments, f.module ∉ o.names ∧
      (o.gather shard s).1 = .error (.unknownModule f.module)) ∨
    (shard.fragments ≠ [] ∧ (∀ f ∈ shard.fragments, f.module ∈ o.names) ∧
      ((¬ shard.TargetingsAgree ∧ ∃ d module first second, (o.gather shard s).1 =
          .error (.conflictingTargeting d shard.index module first second)) ∨
        (shard.TargetingsAgree ∧
          ((∃ q a b, (o.gather shard s).1 = .error (.conflictingEntry q shard.index a b) ∧
              shard.Conflicts s q) ∨
            ((∀ q, ¬ shard.Conflicts s q) ∧ ∃ g, (o.gather shard s).1 = .ok g))))) := by
  cases hread : (o.gather shard s).1 with
  | ok g =>
    obtain ⟨hknown, harr, hunite, -⟩ := of_gather_eq_ok hread
    have hnonempty : shard.fragments ≠ [] := by
      apply List.ne_nil_of_mem (a := g.first)
      apply mem_arrange (o := o).1
      rw [harr]
      exact List.mem_cons_self
    have hagree := targetingsAgree_of_uniteTargetings hunite
    refine .inr (.inr ⟨hnonempty, hknown, .inr ⟨hagree, .inr ⟨?_, g, rfl⟩⟩⟩)
    exact not_conflicts_of_gather hintact hfree hread
  | error fault =>
    rcases of_gather_eq_error hread with ⟨hempty, rfl⟩ | ⟨f, hf, hname, rfl⟩ |
      ⟨hnonempty, hknown, hunite | ⟨⟨u, hunite⟩, hentries⟩⟩
    · exact .inl ⟨hempty, rfl⟩
    · exact .inr (.inl ⟨f, hf, hname, rfl⟩)
    · refine .inr (.inr ⟨hnonempty, hknown, .inl ?_⟩)
      have hagree := uniteTargetings_cases shard.index (o.arrange shard.fragments)
      simp only [mem_arrange] at hagree
      rcases hagree with ⟨-, u, hok⟩ | ⟨hdisagree, d, module, first, second, herror⟩
      · rw [hok] at hunite
        cases hunite
      · rw [herror] at hunite
        cases hunite
        exact ⟨hdisagree, d, module, first, second, rfl⟩
    · have hagree := targetingsAgree_of_uniteTargetings hunite
      obtain ⟨q, a, b, rfl, hconflict⟩ :=
        of_addAll_shardContributions_eq_error hintact hfree hentries
      exact .inr (.inr ⟨hnonempty, hknown, .inr ⟨hagree, .inl ⟨q, a, b, rfl, hconflict⟩⟩⟩)

end Intact

end ModuleOrder
end BundlePackaging
