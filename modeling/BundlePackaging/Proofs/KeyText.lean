import BundlePackaging.MergeCache
import BundlePackaging.Proofs.Canonical
import BundlePackaging.Proofs.SegmentPath
import Mathlib.Data.Finset.Dedup

/-!
# The text of a cache key

The bytes that a key is the digest of can be read back.  Texts are ended by a zero byte, which UTF-8
uses for no character but the one with number zero, and digests have a fixed length; so the bytes
tell the parts, and the parts tell the segments up to their order and repetitions.

## Main definitions

* `KeyPart.Delimited` — a part whose texts have no character zero.
* `CodeSegment.source` — of a segment what a key is to tell.

## Main results

* `KeyPart.textBytes_injective` — the bytes of a text tell the text.
* `KeyPart.eq_of_flatMap_bytes_eq` — the bytes of a list of parts tell the list.
* `keyText_eq_iff` — two lists of segments give the same bytes just when they give the same parts.
* `keyText_eq_iff_sources` — **the bytes tell which contents which modules contribute where, and
  nothing else.**
-/

namespace BundlePackaging

/-! ### Texts -/

/-- A list is told from what follows by a mark that it does not contain. -/
theorem eq_of_append_cons_eq {α : Type} {mark : α} {x y l l' : List α} (hx : mark ∉ x)
    (hy : mark ∉ y) (h : x ++ mark :: l = y ++ mark :: l') : x = y ∧ l = l' := by
  induction x generalizing y with
  | nil =>
    cases y with
    | nil => exact ⟨rfl, (List.cons.inj h).2⟩
    | cons b y => exact absurd (List.cons.inj h).1 fun hb => hy (hb ▸ List.mem_cons_self)
  | cons a x ih =>
    cases y with
    | nil => exact absurd (List.cons.inj h).1.symm fun ha => hx (ha ▸ List.mem_cons_self)
    | cons b y =>
      obtain ⟨rfl, htail⟩ := List.cons.inj h
      obtain ⟨rfl, hl⟩ := ih (List.not_mem_of_not_mem_cons hx) (List.not_mem_of_not_mem_cons hy)
        htail
      exact ⟨rfl, hl⟩

theorem zero_notMem_utf8EncodeChar {c : Char} (h : c ≠ '\x00') :
    (0 : UInt8) ∉ String.utf8EncodeChar c := by
  have hpos : c.val.toNat ≠ 0 := fun hzero => h (Char.toNat_inj.1 hzero)
  -- every byte of the encoding is above zero, whatever its low bits are
  have hbyte {n : ℕ} (hlo : 0 < n) (hhi : n < 256) : (0 : UInt8) ≠ UInt8.ofNat n := by
    intro hzero
    have hval := congrArg UInt8.toNat hzero
    rw [UInt8.toNat_ofNat_of_lt' hhi] at hval
    exact absurd hval.symm (Nat.pos_iff_ne_zero.1 hlo)
  fun_cases String.utf8EncodeChar c with
  | case1 v hone =>
    simp only [List.mem_singleton]
    exact hbyte (by omega) (by omega)
  | case2 v =>
    simp only [List.mem_cons, List.not_mem_nil, or_false, not_or]
    exact ⟨hbyte (by omega) (by omega), hbyte (by omega) (by omega)⟩
  | case3 v =>
    simp only [List.mem_cons, List.not_mem_nil, or_false, not_or]
    exact ⟨hbyte (by omega) (by omega), hbyte (by omega) (by omega), hbyte (by omega) (by omega)⟩
  | case4 v =>
    simp only [List.mem_cons, List.not_mem_nil, or_false, not_or]
    exact ⟨hbyte (by omega) (by omega), hbyte (by omega) (by omega),
      hbyte (by omega) (by omega), hbyte (by omega) (by omega)⟩

namespace KeyPart

theorem textBytes_injective : Function.Injective textBytes := by
  intro s t h
  refine String.toByteArray_inj.1 ?_
  have hbytes (x : String) : x.toByteArray = (textBytes x).toByteArray := by
    conv_lhs => rw [← String.ofList_toList (s := x), String.toByteArray_ofList]
    rfl
  rw [hbytes, hbytes, h]

theorem zero_notMem_textBytes {s : String} (h : '\x00' ∉ s.toList) :
    (0 : UInt8) ∉ textBytes s := by
  intro hzero
  obtain ⟨c, hc, hzero⟩ := List.mem_flatMap.1 hzero
  refine zero_notMem_utf8EncodeChar ?_ hzero
  rintro rfl
  exact h hc

/-- Texts that a zero byte ends are told apart from what follows. -/
theorem textBytes_append_inj {s t : String} {l l' : List UInt8} (hs : '\x00' ∉ s.toList)
    (ht : '\x00' ∉ t.toList) (h : textBytes s ++ 0 :: l = textBytes t ++ 0 :: l') :
    s = t ∧ l = l' := by
  obtain ⟨htext, hl⟩ := eq_of_append_cons_eq (zero_notMem_textBytes hs) (zero_notMem_textBytes ht) h
  exact ⟨textBytes_injective htext, hl⟩

/-! ### Parts -/

/-- The texts of a part have no character zero. -/
structure Delimited (p : KeyPart) : Prop where
  /-- The name of the module has none. -/
  module : '\x00' ∉ p.module.toList
  /-- The path has none. -/
  path : '\x00' ∉ p.path.chars

theorem bytes_append_inj {p q : KeyPart} {l l' : List UInt8} (hp : p.Delimited)
    (hq : q.Delimited) (h : p.bytes ++ l = q.bytes ++ l') : p = q ∧ l = l' := by
  unfold bytes at h
  simp only [List.append_assoc, List.cons_append] at h
  obtain ⟨hmodule, h⟩ := textBytes_append_inj hp.module hq.module h
  obtain ⟨hpath, h⟩ := textBytes_append_inj hp.path hq.path h
  obtain ⟨hdigest, hl⟩ :=
    List.append_inj h (p.digest.length_bytes.trans q.digest.length_bytes.symm)
  refine ⟨?_, hl⟩
  cases p; cases q
  rw [mk.injEq]
  exact ⟨hmodule, EntryPath.ext hpath, Digest.ext hdigest⟩

theorem bytes_ne_nil (p : KeyPart) : p.bytes ≠ [] := by simp [bytes]

/-- The bytes of a list of parts tell the list. -/
theorem eq_of_flatMap_bytes_eq {ps qs : List KeyPart} (hps : ∀ p ∈ ps, p.Delimited)
    (hqs : ∀ q ∈ qs, q.Delimited) (h : ps.flatMap bytes = qs.flatMap bytes) : ps = qs := by
  induction ps generalizing qs with
  | nil =>
    cases qs with
    | nil => rfl
    | cons q qs => exact absurd (List.append_eq_nil_iff.1 h.symm).1 (bytes_ne_nil q)
  | cons p ps ih =>
    cases qs with
    | nil => exact absurd (List.append_eq_nil_iff.1 h).1 (bytes_ne_nil p)
    | cons q qs =>
      obtain ⟨hp, hps'⟩ := List.forall_mem_cons.1 hps
      obtain ⟨hq, hqs'⟩ := List.forall_mem_cons.1 hqs
      obtain ⟨rfl, htail⟩ := bytes_append_inj hp hq h
      rw [ih hps' hqs' htail]

end KeyPart

/-! ### Keys -/

/-- Two lists of segments give the same bytes just when they give the same parts. -/
theorem keyText_eq_iff {l l' : List CodeSegment} (hl : ∀ a ∈ l, (KeyPart.ofSegment a).Delimited)
    (hl' : ∀ a ∈ l', (KeyPart.ofSegment a).Delimited) :
    keyText l = keyText l' ↔
      ∀ p, p ∈ l.map KeyPart.ofSegment ↔ p ∈ l'.map KeyPart.ofSegment := by
  have hparts {l : List CodeSegment} (hl : ∀ a ∈ l, (KeyPart.ofSegment a).Delimited) :
      ∀ p ∈ (SortedSet.ofList (l.map KeyPart.ofSegment)).toList, p.Delimited := by
    intro p hp
    obtain ⟨a, ha, rfl⟩ := List.mem_map.1 (SortedSet.mem_ofList.1 hp)
    exact hl a ha
  constructor
  · intro h p
    have hlist := KeyPart.eq_of_flatMap_bytes_eq (hparts hl) (hparts hl') h
    rw [← SortedSet.mem_ofList, ← SortedSet.mem_ofList (l := l'.map KeyPart.ofSegment),
      SortedSet.ext hlist]
  · intro h
    unfold keyText
    rw [SortedSet.ofList_congr h]

namespace EntryPath

theorem zero_notMem_chars_dex (n : ℕ) : '\x00' ∉ (dex n).chars := by
  rw [chars_dex]
  simp only [List.mem_append, not_or]
  refine ⟨⟨by decide, ?_⟩, by decide⟩
  intro hzero
  exact absurd (isDigit_of_mem_number hzero) (by decide)

end EntryPath

/-- A segment that lies at the path of a code segment is delimited if its module's name is. -/
theorem KeyPart.delimited_ofSegment {a : CodeSegment} (hmodule : '\x00' ∉ a.module.toList)
    (hpath : a.entry.path.isDex) : (KeyPart.ofSegment a).Delimited := by
  obtain ⟨n, hn⟩ := Option.isSome_iff_exists.1 hpath
  refine ⟨hmodule, ?_⟩
  change '\x00' ∉ a.entry.path.chars
  rw [EntryPath.eq_dex_of_dexIndex? hn]
  exact EntryPath.zero_notMem_chars_dex n

/-! ### Sources -/

/-- The module that contributes a segment, the segment's path in the module, and the digest of its
content. -/
def CodeSegment.source (a : CodeSegment) : String × String × Digest :=
  (a.module, a.entry.path.text, a.digest)

theorem mem_map_source_iff {l : List CodeSegment} {p : KeyPart} :
    (p.module, p.path.text, p.digest) ∈ l.map CodeSegment.source ↔
      p ∈ l.map KeyPart.ofSegment := by
  rw [List.mem_map, List.mem_map]
  refine exists_congr fun a => and_congr_right fun _ => ?_
  constructor
  · intro h
    obtain ⟨hmodule, h⟩ := Prod.mk.inj h
    obtain ⟨hpath, hdigest⟩ := Prod.mk.inj h
    cases p
    rw [KeyPart.ofSegment, KeyPart.mk.injEq]
    exact ⟨hmodule, EntryPath.ext hpath, hdigest⟩
  · rintro rfl
    rfl

/-- Two lists of code segments whose modules have no character zero in their names give the same
bytes just when they have the same sources, in whatever order and however often each. -/
theorem keyText_eq_iff_sources {l l' : List CodeSegment}
    (hl : ∀ a ∈ l, a.entry.path.isDex ∧ '\x00' ∉ a.module.toList)
    (hl' : ∀ a ∈ l', a.entry.path.isDex ∧ '\x00' ∉ a.module.toList) :
    keyText l = keyText l' ↔
      (l.map CodeSegment.source).toFinset = (l'.map CodeSegment.source).toFinset := by
  rw [keyText_eq_iff (fun a ha => KeyPart.delimited_ofSegment (hl a ha).2 (hl a ha).1)
    (fun a ha => KeyPart.delimited_ofSegment (hl' a ha).2 (hl' a ha).1), Finset.ext_iff]
  simp only [List.mem_toFinset]
  constructor
  · rintro h ⟨module, path, digest⟩
    have hpart := h ⟨module, ⟨path⟩, digest⟩
    rwa [← mem_map_source_iff, ← mem_map_source_iff] at hpart
  · intro h p
    rw [← mem_map_source_iff, ← mem_map_source_iff]
    exact h _

/-- A segment with a digest all of whose bytes are equal. -/
def segmentOf (module : String) (index : ℕ) (byte : UInt8) : CodeSegment :=
  ⟨module, 0, index, ⟨.dex index, .empty, .compressed⟩, ⟨List.replicate 32 byte, rfl⟩⟩

/-- The order of segments does not count, nor does it that one of them is repeated; but it counts
which module has which content. -/
theorem keyText_eq_iff_sources_repeated :
    let segments := [segmentOf "a" 1 97, segmentOf "a" 2 98, segmentOf "b" 1 98]
    let repeated := [segmentOf "b" 1 98, segmentOf "a" 2 98, segmentOf "a" 1 97, segmentOf "b" 1 98]
    let exchanged := [segmentOf "a" 1 98, segmentOf "a" 2 98, segmentOf "b" 1 97]
    (∀ a ∈ segments ++ repeated ++ exchanged, a.entry.path.isDex ∧ '\x00' ∉ a.module.toList) ∧
      keyText segments = keyText repeated ∧ keyText segments ≠ keyText exchanged := by
  intro segments repeated exchanged
  have hall : ∀ a ∈ segments ++ repeated ++ exchanged,
      a.entry.path.isDex ∧ '\x00' ∉ a.module.toList := by decide
  obtain ⟨hfront, hexchanged⟩ := List.forall_mem_append.1 hall
  obtain ⟨hsegments, hrepeated⟩ := List.forall_mem_append.1 hfront
  refine ⟨hall, (keyText_eq_iff_sources hsegments hrepeated).2 (by decide), ?_⟩
  rw [Ne, keyText_eq_iff_sources hsegments hexchanged]
  decide

/-- With a character zero, a module's name can look like a whole segment in front of another. -/
example :
    let digest := String.ofList (List.replicate 32 'a')
    keyText [segmentOf "a" 1 97, segmentOf "b" 1 98] =
      keyText [segmentOf ("a\x00dex/classes.dex\x00" ++ digest ++ "b") 1 98] := by
  decide

end BundlePackaging
