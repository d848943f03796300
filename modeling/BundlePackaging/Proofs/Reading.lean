import BundlePackaging.Fusion
import Mathlib.Data.Set.Basic

/-!
# Reading contents that do not change

A reading asks for digests, and which digests are stored already depends on what was read before.
As long as every stored digest is that of the bytes that the content has, this makes no difference:
the answer of a reading rests on the files alone, and reading leaves such a storage behind again.

## Main definitions

* `CollisionFree` — texts that their digests tell apart.
* `Content.Steady` — a content of which no digest of other bytes is stored.
* `Storage.Alike` — storages that differ in the digests stored for contents that did not change.
* `RestsOn` — readings whose answer is the same in storages that are alike.

## Main results

* `RestsOn.bind` — a reading made of two rests on what its parts rest on.
* `Content.digest_of_steady` — the digest of a content that did not change is that of its bytes.
* `Entry.sameContent_eq_true` — when two entries count as having the same bytes.
-/

namespace BundlePackaging

variable {α β : Type} {C : Set Content} {s t u : Storage}

/-! ### Digests -/

/-- No two different texts of the list have the same digest. -/
def CollisionFree (texts : List (List UInt8)) : Prop :=
  ∀ x ∈ texts, ∀ y ∈ texts, Digest.ofContent x = Digest.ofContent y → x = y

instance (texts : List (List UInt8)) : Decidable (CollisionFree texts) :=
  inferInstanceAs (Decidable (∀ x ∈ texts, ∀ y ∈ texts, Digest.ofContent x = Digest.ofContent y →
    x = y))

theorem CollisionFree.subset {texts texts' : List (List UInt8)} (h : CollisionFree texts)
    (hsub : texts' ⊆ texts) : CollisionFree texts' :=
  fun x hx y hy => h x (hsub hx) y (hsub hy)

/-- The bytes of those contents that can be read. -/
def readableBytes (s : Storage) (contents : List Content) : List (List UInt8) :=
  contents.filterMap fun c => (c.read s).toOption

theorem mem_readableBytes {contents : List Content} {bytes : List UInt8} :
    bytes ∈ readableBytes s contents ↔ ∃ c ∈ contents, c.read s = .ok bytes := by
  unfold readableBytes
  rw [List.mem_filterMap]
  refine exists_congr fun c => and_congr_right fun _ => ?_
  cases c.read s with
  | error e => simp [Except.toOption]
  | ok x => simp [Except.toOption]

theorem readableBytes_subset {contents contents' : List Content} (h : contents ⊆ contents') :
    readableBytes s contents ⊆ readableBytes s contents' := by
  intro bytes hbytes
  obtain ⟨c, hc, hread⟩ := mem_readableBytes.1 hbytes
  exact mem_readableBytes.2 ⟨c, h hc, hread⟩

/-! ### Contents -/

namespace Content

/-- A digest that is stored for the content is that of the bytes it has now. -/
def Steady (c : Content) (s : Storage) : Prop :=
  ∀ d, s.digest? c = some d → ∃ bytes, c.read s = .ok bytes ∧ d = .ofContent bytes

theorem read_congr (c : Content) (h : s.disk = t.disk) : c.read s = c.read t := by
  unfold read
  cases c.source with
  | memory bytes => rfl
  | file name size => rw [h]

theorem steady_of_digest?_eq_none {c : Content} (h : s.digest? c = none) : c.Steady s := by
  intro d hd
  rw [h] at hd
  cases hd

theorem digest_of_steady {c : Content} (h : c.Steady s) :
    (c.digest s).1 = (c.read s).map Digest.ofContent := by
  unfold digest
  cases hd : s.digest? c with
  | some d =>
    obtain ⟨bytes, hread, rfl⟩ := h d hd
    rw [hread]
    rfl
  | none =>
    cases hread : c.read s with
    | error e => rfl
    | ok bytes =>
      simp only [Storage.record, hd]
      rfl

theorem disk_digest (c : Content) (s : Storage) : (c.digest s).2.disk = s.disk := by
  unfold digest
  cases hd : s.digest? c with
  | some d => rfl
  | none =>
    cases hread : c.read s with
    | error e => rfl
    | ok bytes => simp only [Storage.record, hd]

/-- Asking for a digest stores none of other bytes. -/
theorem Steady.digest {x : Content} (h : x.Steady s) (c : Content) :
    x.Steady (c.digest s).2 := by
  intro d hd
  rw [x.read_congr (c.disk_digest s)]
  unfold Content.digest at hd
  cases hc : s.digest? c with
  | some e =>
    rw [hc] at hd
    exact h d hd
  | none =>
    rw [hc] at hd
    cases hread : c.read s with
    | error e =>
      rw [hread] at hd
      exact h d hd
    | ok bytes =>
      simp only [hread, Storage.record, hc] at hd
      by_cases hx : x = c
      · rw [if_pos hx] at hd
        cases hd
        exact ⟨bytes, hx ▸ hread, rfl⟩
      · rw [if_neg hx] at hd
        exact h d hd

end Content

/-! ### Storages that are alike -/

/-- Two storages show the same files, and the digests they store for the contents in `C` are those
of the bytes. -/
structure Storage.Alike (C : Set Content) (s t : Storage) : Prop where
  /-- The files are the same. -/
  disk : s.disk = t.disk
  /-- The contents did not change by the digests in the first. -/
  left : ∀ c ∈ C, c.Steady s
  /-- The contents did not change by the digests in the second. -/
  right : ∀ c ∈ C, c.Steady t

namespace Storage.Alike

theorem refl (h : ∀ c ∈ C, c.Steady s) : s.Alike C s := ⟨rfl, h, h⟩

theorem symm (h : s.Alike C t) : t.Alike C s := ⟨h.disk.symm, h.right, h.left⟩

theorem trans (h : s.Alike C t) (h' : t.Alike C u) : s.Alike C u :=
  ⟨h.disk.trans h'.disk, h.left, h'.right⟩

theorem read (h : s.Alike C t) (c : Content) : c.read s = c.read t := c.read_congr h.disk

theorem readableBytes_eq (h : s.Alike C t) (contents : List Content) :
    readableBytes s contents = readableBytes t contents := by
  unfold readableBytes
  simp only [h.read]

theorem digest {c : Content} (h : s.Alike C t) : (c.digest s).2.Alike C t :=
  ⟨(c.disk_digest s).trans h.disk, fun x hx => (h.left x hx).digest c, h.right⟩

end Storage.Alike

/-! ### Readings -/

theorem Reading.bind_apply (x : Reading α) (k : α → Reading β) (s : Storage) :
    (x >>= k) s = match x s with
      | (.ok a, t) => k a t
      | (.error fault, t) => (.error fault, t) := by
  change (match x s with
    | (a, t) => ExceptT.bindCont k a t) = _
  rcases x s with ⟨_ | a, t⟩ <;> rfl

/-- A reading made of two succeeds only if both do. -/
theorem Reading.of_bind_eq_ok {x : Reading α} {k : α → Reading β} {b : β}
    (h : ((x >>= k) s).1 = .ok b) :
    ∃ a, (x s).1 = .ok a ∧ (k a (x s).2).1 = .ok b := by
  rw [bind_apply] at h
  rcases hx : x s with ⟨fault | a, t⟩
  · rw [hx] at h
    cases h
  · rw [hx] at h
    exact ⟨a, rfl, h⟩

/-- A reading made of two fails if the first part does, or else as the second does. -/
theorem Reading.of_bind_eq_error {x : Reading α} {k : α → Reading β} {fault : Fault}
    (h : ((x >>= k) s).1 = .error fault) :
    (x s).1 = .error fault ∨ ∃ a, (x s).1 = .ok a ∧ (k a (x s).2).1 = .error fault := by
  rw [bind_apply] at h
  rcases hx : x s with ⟨e | a, t⟩
  · rw [hx] at h
    exact .inl (congrArg Except.error (Except.error.inj h))
  · rw [hx] at h
    exact .inr ⟨a, rfl, h⟩

theorem Reading.bind_eq_of_eq_ok {x : Reading α} {k : α → Reading β} {a : α}
    (h : (x s).1 = .ok a) : ((x >>= k) s).1 = (k a (x s).2).1 := by
  rw [bind_apply]
  rcases hx : x s with ⟨e | b, t⟩
  · rw [hx] at h
    cases h
  · rw [hx] at h
    cases h
    rfl

/-- The answer is the same in all storages that are alike, and what is left behind is like them. -/
def RestsOn (C : Set Content) (x : Reading α) : Prop :=
  ∀ ⦃s t : Storage⦄, s.Alike C t → (x s).1 = (x t).1 ∧ (x s).2.Alike C t

namespace RestsOn

variable {x : Reading α} {k : α → Reading β}

theorem alike (hx : RestsOn C x) (h : s.Alike C t) : (x s).2.Alike C (x t).2 :=
  (hx h).2.trans (h.symm.trans (hx h.symm).2.symm)

theorem pure (a : α) : RestsOn C (Pure.pure a : Reading α) := fun _ _ h => ⟨rfl, h⟩

theorem throw (fault : Fault) : RestsOn C (throw fault : Reading α) := fun _ _ h => ⟨rfl, h⟩

theorem lift (x : Except Fault α) : RestsOn C (liftM x : Reading α) := fun _ _ h => ⟨rfl, h⟩

/-- A reading made of two rests on what its parts rest on; the second part need only be looked at
for answers that the first can give. -/
theorem bind (hx : RestsOn C x) (hk : ∀ s a, (x s).1 = .ok a → RestsOn C (k a)) :
    RestsOn C (x >>= k) := by
  intro s t h
  obtain ⟨heq, hleft⟩ := hx h
  have hafter := hx.alike h
  rw [Reading.bind_apply, Reading.bind_apply]
  rcases hxs : x s with ⟨fault | a, s'⟩ <;> rcases hxt : x t with ⟨fault' | a', t'⟩ <;>
    rw [hxs, hxt] at heq hafter <;> rw [hxs] at hleft
  · exact ⟨congrArg Except.error (Except.error.inj heq), hleft⟩
  · cases heq
  · cases heq
  · obtain rfl : a = a' := Except.ok.inj heq
    have hka := hk s a (by rw [hxs])
    exact ⟨(hka hafter).1, (hka (hafter.trans (hafter.symm.trans hleft))).2⟩

end RestsOn

/-! ### Entries -/

namespace Entry

theorem digest_of_steady {e : Entry} (h : e.content.Steady s) :
    (e.digest s).1 = (e.read s).map Digest.ofContent := by
  change ((e.content.digest s).1).mapError e.unreadable = _
  rw [Content.digest_of_steady h]
  unfold read
  cases e.content.read s <;> rfl

theorem disk_digest (e : Entry) (s : Storage) : (e.digest s).2.disk = s.disk :=
  e.content.disk_digest s

theorem restsOn_digest {e : Entry} (h : e.content ∈ C) : RestsOn C e.digest := by
  intro s t hst
  refine ⟨?_, hst.digest⟩
  rw [digest_of_steady (hst.left _ h), digest_of_steady (hst.right _ h)]
  unfold read
  rw [hst.read]

theorem restsOn_sameContent {a b : Entry} (ha : a.content ∈ C) (hb : b.content ∈ C) :
    RestsOn C (a.sameContent b) := by
  unfold sameContent
  split
  · exact .pure true
  · split
    · exact .pure false
    · exact (restsOn_digest ha).bind fun _ _ _ => (restsOn_digest hb).bind fun _ _ _ => .pure _

/-- Two entries share a handle, or both can be read and have equal sizes and digests. -/
def Agrees (s : Storage) (a b : Entry) : Prop :=
  a.content = b.content ∨ a.size = b.size ∧ ∃ x y, a.content.read s = .ok x ∧
    b.content.read s = .ok y ∧ Digest.ofContent x = Digest.ofContent y

theorem Agrees.congr {a b : Entry} (h : a.Agrees s b) (hst : s.disk = t.disk) : a.Agrees t b := by
  unfold Agrees
  rw [← a.content.read_congr hst, ← b.content.read_congr hst]
  exact h

theorem digest_eq_ok {e : Entry} {d : Digest} (h : e.content.Steady s) :
    (e.digest s).1 = .ok d ↔ ∃ bytes, e.content.read s = .ok bytes ∧ d = .ofContent bytes := by
  rw [digest_of_steady h]
  unfold read
  cases e.content.read s with
  | error cause => simp [Except.map, Except.mapError]
  | ok bytes => simp [Except.map, Except.mapError, eq_comm]

theorem sameContent_eq_true {a b : Entry} (ha : a.content.Steady s) (hb : b.content.Steady s)
    (h : (a.sameContent b s).1 = .ok true) : a.Agrees s b := by
  unfold sameContent at h
  split at h
  · next hab => exact .inl hab
  · split at h
    · cases h
    · next hsize =>
      obtain ⟨d, hd, h⟩ := Reading.of_bind_eq_ok h
      obtain ⟨e, he, h⟩ := Reading.of_bind_eq_ok h
      obtain ⟨x, hx, rfl⟩ := (digest_eq_ok ha).1 hd
      have hb' : b.content.Steady (a.digest s).2 := hb.digest a.content
      obtain ⟨y, hy, rfl⟩ := (digest_eq_ok hb').1 he
      rw [b.content.read_congr (a.disk_digest s)] at hy
      refine .inr ⟨not_not.1 hsize, x, y, hx, hy, ?_⟩
      exact of_decide_eq_true (Except.ok.inj h)

end Entry
end BundlePackaging
