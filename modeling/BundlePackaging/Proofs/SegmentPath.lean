import BundlePackaging.EntryPath
import Mathlib.Data.List.Infix
import Mathlib.Data.List.Induction
import Mathlib.Data.List.Nodup

/-!
# The paths of code segments

A segment's path spells its number, so that path and number determine each other.

## Main results

* `EntryPath.eq_dex_of_dexIndex?` — a path that is read as a number is the path of that number.
* `EntryPath.dexIndex?_dex` — the path of a number of 32 bits is read as that number.
* `EntryPath.nodup_map_dex_iff` — when the paths of the numbers from 1 are distinct.
* `EntryPath.segment_paths_bijective` — **the paths of code segments are those of the numbers from 1
  that fit in 32 bits, one for each.**
-/

namespace BundlePackaging

/-! ### Decimal digits -/

theorem digitChar_of_isDigit {c : Char} (h : c.isDigit) :
    (c.toNat - '0'.toNat).digitChar = c ∧ c.toNat - '0'.toNat < 10 := by
  have hrange : 48 ≤ c.toNat ∧ c.toNat ≤ 57 := by
    unfold Char.isDigit at h
    rw [Bool.and_eq_true, decide_eq_true_eq, decide_eq_true_eq] at h
    exact h
  have hlt : c.toNat - '0'.toNat < 10 := by
    have hzero : '0'.toNat = 48 := rfl
    omega
  refine ⟨Char.toNat_inj.1 ?_, hlt⟩
  have hzero : '0'.toNat = 48 := rfl
  rw [Nat.toNat_digitChar_of_lt_ten hlt]
  omega

/-- Digits without a zero in front are those of the number that they spell. -/
theorem toDigits_ofDigitChars {digits : List Char} (hall : ∀ c ∈ digits, c.isDigit)
    (hne : digits ≠ []) (hhead : digits.head? ≠ some '0') :
    Nat.toDigits 10 (Nat.ofDigitChars 10 digits 0) = digits := by
  induction digits using List.reverseRecOn with
  | nil => exact absurd rfl hne
  | append_singleton ds c ih =>
    obtain ⟨hchar, hlt⟩ := digitChar_of_isDigit (hall c (by simp))
    rw [Nat.ofDigitChars_append, Nat.ofDigitChars_cons, Nat.ofDigitChars_nil]
    cases hds : ds with
    | nil =>
      rw [Nat.ofDigitChars_nil, Nat.mul_zero, Nat.zero_add, Nat.toDigits_of_lt_base hlt, hchar]
      rfl
    | cons d ds' =>
      rw [← hds]
      have hne' : ds ≠ [] := by simp [hds]
      have hhead' : ds.head? ≠ some '0' := by
        rw [hds]
        simpa [hds] using hhead
      have hds' := ih (fun x hx => hall x (List.mem_append_left _ hx)) hne' hhead'
      -- the digits in front spell no zero, for that has one digit, which is zero
      have hpos : 0 < Nat.ofDigitChars 10 ds 0 := by
        rw [Nat.pos_iff_ne_zero]
        intro hzero
        rw [hzero] at hds'
        exact hhead' (by rw [← hds']; rfl)
      rw [← Nat.toDigits_append_toDigits (by decide) hpos hlt, hds', Nat.toDigits_of_lt_base hlt,
        hchar]

theorem head?_toDigits {n : Nat} (h : 0 < n) : (Nat.toDigits 10 n).head? ≠ some '0' := by
  induction n using Nat.strongRecOn with
  | _ n ih =>
    rcases Nat.lt_or_ge n 10 with hlt | hge
    · rw [Nat.toDigits_of_lt_base hlt]
      simpa using Nat.pos_iff_ne_zero.1 h
    · have hfront := ih (n / 10) (by omega) (by omega)
      rw [Nat.toDigits_of_base_le (by decide) hge]
      cases hdigits : Nat.toDigits 10 (n / 10) with
      | nil => exact absurd hdigits Nat.toDigits_ne_nil
      | cons d ds =>
        rw [hdigits] at hfront
        simpa using hfront

/-! ### Numbers and paths -/

namespace EntryPath

theorem segmentNumber?_eq_some {digits : List Char} {n : Nat}
    (h : segmentNumber? digits = some n) :
    n = 1 ∧ digits = [] ∨ 2 ≤ n ∧ n < UInt32.size ∧ digits = Nat.toDigits 10 n := by
  unfold segmentNumber? at h
  split at h
  · exact .inl ⟨(Option.some.inj h).symm, rfl⟩
  · next d ds =>
    simp only at h
    split at h
    · next hcond =>
      obtain ⟨hd, hall, hlo, hhi⟩ := hcond
      obtain rfl := Option.some.inj h
      refine .inr ⟨hlo, hhi, (toDigits_ofDigitChars ?_ (by simp) (by simpa using hd)).symm⟩
      exact List.all_eq_true.1 hall
    · cases h

theorem segmentNumber?_toDigits {n : Nat} (hlo : 2 ≤ n) (hhi : n < UInt32.size) :
    segmentNumber? (Nat.toDigits 10 n) = some n := by
  have hvalue := Nat.ofDigitChars_ten_toDigits (n := n)
  have hhead := head?_toDigits (n := n) (by omega)
  have hall : (Nat.toDigits 10 n).all Char.isDigit :=
    List.all_eq_true.2 fun c hc => Nat.isDigit_of_mem_toDigits (by decide) (by decide) hc
  unfold segmentNumber?
  cases hdigits : Nat.toDigits 10 n with
  | nil => exact absurd hdigits Nat.toDigits_ne_nil
  | cons d ds =>
    rw [hdigits] at hvalue hhead hall
    rw [hvalue]
    exact if_pos ⟨by simpa using hhead, hall, hlo, hhi⟩

theorem dexIndex?_eq_some {p : EntryPath} {n : Nat} :
    p.dexIndex? = some n ↔ ∃ digits, segmentNumber? digits = some n ∧
      p.chars = "dex/classes".toList ++ digits ++ ".dex".toList := by
  unfold dexIndex?
  simp only [Option.bind_eq_bind, Option.bind_eq_some_iff, List.isPrefixOf?_eq_some_iff_append_eq,
    List.isSuffixOf?_eq_some_iff_append_eq]
  constructor
  · rintro ⟨_, hp, digits, rfl, hn⟩
    exact ⟨digits, hn, by rw [List.append_assoc, hp]⟩
  · rintro ⟨digits, hn, hp⟩
    exact ⟨_, by rw [hp, List.append_assoc], digits, rfl, hn⟩

theorem chars_dex (n : Nat) :
    (dex n).chars = "dex/classes".toList ++ (if n ≤ 1 then [] else Nat.toDigits 10 n) ++
      ".dex".toList := by
  unfold dex chars
  split
  · rfl
  · rw [String.toList_ofList]

theorem isDigit_of_mem_number {n : Nat} {c : Char}
    (h : c ∈ if n ≤ 1 then [] else Nat.toDigits 10 n) : c.isDigit := by
  split at h
  · cases h
  · exact Nat.isDigit_of_mem_toDigits (by decide) (by decide) h

theorem eq_of_chars_eq {p q : EntryPath} (h : p.chars = q.chars) : p = q :=
  ext (String.toList_inj.1 h)

/-- A path that is read as a number is the path of that number. -/
theorem eq_dex_of_dexIndex? {p : EntryPath} {n : Nat} (h : p.dexIndex? = some n) : p = dex n := by
  obtain ⟨digits, hn, hp⟩ := dexIndex?_eq_some.1 h
  refine eq_of_chars_eq ?_
  rw [hp, chars_dex]
  rcases segmentNumber?_eq_some hn with ⟨rfl, rfl⟩ | ⟨hlo, -, rfl⟩
  · rfl
  · rw [if_neg (by omega)]

/-- The path of a number of 32 bits is read as that number. -/
theorem dexIndex?_dex {n : Nat} (h : n < UInt32.size) : (dex n).dexIndex? = some (max n 1) := by
  refine dexIndex?_eq_some.2 ⟨_, ?_, chars_dex n⟩
  split
  · next hle =>
    rw [Nat.max_eq_right hle]
    rfl
  · next hlt =>
    rw [Nat.max_eq_left (by omega)]
    exact segmentNumber?_toDigits (by omega) h

theorem isDex_dex {n : Nat} (h : n < UInt32.size) : (dex n).isDex := by
  rw [isDex, dexIndex?_dex h]
  rfl

/-- Numbers from 1 that fit in 32 bits have distinct paths. -/
theorem eq_of_dex_eq {n k : ℕ} (hn : 0 < n) (hk : 0 < k) (hnlt : n < UInt32.size)
    (hklt : k < UInt32.size) (h : dex n = dex k) : n = k := by
  have hindex := congrArg dexIndex? h
  rw [dexIndex?_dex hnlt, dexIndex?_dex hklt, Option.some.injEq] at hindex
  omega

/-- The paths of the first `n` numbers are distinct just when these numbers fit in 32 bits. -/
theorem nodup_map_dex_iff {n : ℕ} :
    ((List.range n).map fun j => dex ((j + 1) % UInt32.size)).Nodup ↔ n < UInt32.size := by
  constructor
  · intro h
    by_contra hn
    -- the number after the last one is 0, and has the path of 1
    have hlast : UInt32.size - 1 = 0 := by
      apply List.inj_on_of_nodup_map h
      · exact List.mem_range.2 (by simp only [UInt32.size] at *; omega)
      · exact List.mem_range.2 (by simp only [UInt32.size] at *; omega)
      · rfl
    simp [UInt32.size] at hlast
  · intro hn
    apply List.Nodup.map_on _ List.nodup_range
    intro j hj k hk h
    rw [List.mem_range] at hj hk
    rw [Nat.mod_eq_of_lt (by omega), Nat.mod_eq_of_lt (by omega)] at h
    have hsucc := eq_of_dex_eq (Nat.succ_pos j) (Nat.succ_pos k) (by omega) (by omega) h
    omega

/-- The paths that are read as a number are those of the numbers from 1 that fit in 32 bits. -/
theorem dexIndex?_eq_some_iff_eq_dex {p : EntryPath} {n : ℕ} :
    p.dexIndex? = some n ↔ 1 ≤ n ∧ n < UInt32.size ∧ p = dex n := by
  constructor
  · intro h
    obtain ⟨digits, hdigits, -⟩ := dexIndex?_eq_some.1 h
    rcases segmentNumber?_eq_some hdigits with ⟨rfl, -⟩ | ⟨hlo, hhi, -⟩
    · exact ⟨Nat.le_refl 1, by decide, eq_dex_of_dexIndex? h⟩
    · exact ⟨by omega, hhi, eq_dex_of_dexIndex? h⟩
  · rintro ⟨hlo, hhi, rfl⟩
    rw [dexIndex?_dex hhi, Nat.max_eq_left hlo]

theorem isDex_iff {p : EntryPath} : p.isDex ↔ ∃ n, 1 ≤ n ∧ n < UInt32.size ∧ p = dex n := by
  rw [isDex, Option.isSome_iff_exists]
  exact exists_congr fun n => dexIndex?_eq_some_iff_eq_dex

/-! ### Paths of no segment -/

theorem count_slash_chars_dex (n : ℕ) : (dex n).chars.count '/' = 1 := by
  have hnumber : '/' ∉ (if n ≤ 1 then [] else Nat.toDigits 10 n) := fun hslash =>
    absurd (isDigit_of_mem_number hslash) (by decide)
  rw [chars_dex, List.count_append, List.count_append, List.count_eq_zero_of_not_mem hnumber]
  rfl

theorem toDigits_injective : Function.Injective (Nat.toDigits 10) := by
  intro n k h
  have hvalue := congrArg (Nat.ofDigitChars 10 · 0) h
  simpa using hvalue

/-- The number of a segment is written neither with a zero in front nor as a plain 1, it has no
character but decimal digits, and it fits in 32 bits. -/
theorem not_isDex_of_misnumbered {p : EntryPath} {number : List Char}
    (hp : p.chars = "dex/classes".toList ++ number ++ ".dex".toList)
    (h : number.head? = some '0' ∨ number = ['1'] ∨ (∃ c ∈ number, ¬ c.isDigit) ∨
      ∃ n ≥ UInt32.size, number = Nat.toDigits 10 n) : ¬ p.isDex := by
  intro hdex
  obtain ⟨n, hpos, hlt, rfl⟩ := isDex_iff.1 hdex
  rw [chars_dex] at hp
  have hnumber := List.append_cancel_left (List.append_cancel_right hp)
  split at hnumber
  · -- the first segment has no number
    subst hnumber
    rcases h with h | h | ⟨c, hc, -⟩ | ⟨k, -, hk⟩
    · cases h
    · cases h
    · cases hc
    · exact Nat.toDigits_ne_nil hk.symm
  · next hn =>
    subst hnumber
    rcases h with h | h | ⟨c, hc, hdigit⟩ | ⟨k, hk, hdigits⟩
    · exact head?_toDigits hpos h
    · exact hn (Nat.le_of_eq (toDigits_injective h))
    · exact hdigit (Nat.isDigit_of_mem_toDigits (by decide) (by decide) hc)
    · obtain rfl := toDigits_injective hdigits
      omega

/-- A path is read as the number `n` of 32 bits just when `n` is at least 1 and the path is that of
`n`.  So different numbers from 1 have different paths, a number is read back from its path, a path
is written again from the number it is read as, and a path that no number has is no code segment's:
neither is one whose number begins with a zero, is a plain 1, has a sign or another character that
is no decimal digit, or does not fit in 32 bits, nor one with more or fewer directories than one. -/
theorem segment_paths_bijective :
    (∀ (p : EntryPath) (n : UInt32), p.dexIndex? = some n.toNat ↔ 1 ≤ n ∧ p = dex n.toNat) ∧
    (∀ n k : UInt32, 1 ≤ n → 1 ≤ k → dex n.toNat = dex k.toNat → n = k) ∧
    (∀ n : UInt32, 1 ≤ n → (dex n.toNat).dexIndex? = some n.toNat) ∧
    (∀ (p : EntryPath) (n : ℕ), p.dexIndex? = some n → n < UInt32.size ∧ dex n = p) ∧
    (∀ p : EntryPath, ¬ p.isDex ↔ ∀ n : UInt32, 1 ≤ n → p ≠ dex n.toNat) ∧
    (∀ (p : EntryPath) (number : List Char),
      p.chars = "dex/classes".toList ++ number ++ ".dex".toList →
      number.head? = some '0' ∨ number = ['1'] ∨ (∃ c ∈ number, ¬ c.isDigit) ∨
        (∃ n ≥ UInt32.size, number = Nat.toDigits 10 n) → ¬ p.isDex) ∧
    ∀ p : EntryPath, p.chars.count '/' ≠ 1 → ¬ p.isDex := by
  have hone (n : UInt32) : 1 ≤ n ↔ 1 ≤ n.toNat := UInt32.le_iff_toNat_le
  have hread (p : EntryPath) (n : UInt32) :
      p.dexIndex? = some n.toNat ↔ 1 ≤ n ∧ p = dex n.toNat := by
    rw [dexIndex?_eq_some_iff_eq_dex, hone, and_iff_right n.toNat_lt]
  refine ⟨hread, ?_, ?_, ?_, ?_, fun p number => not_isDex_of_misnumbered, ?_⟩
  · intro n k hn hk h
    exact UInt32.toNat_inj.1 (eq_of_dex_eq ((hone n).1 hn) ((hone k).1 hk) n.toNat_lt k.toNat_lt h)
  · intro n hn
    exact (hread _ n).2 ⟨hn, rfl⟩
  · intro p n h
    obtain ⟨-, hlt, hp⟩ := dexIndex?_eq_some_iff_eq_dex.1 h
    exact ⟨hlt, hp.symm⟩
  · intro p
    constructor
    · rintro h n - rfl
      exact h (isDex_dex n.toNat_lt)
    · intro h hdex
      obtain ⟨n, hpos, hlt, hp⟩ := isDex_iff.1 hdex
      have hsmall : (UInt32.ofNat n).toNat = n := UInt32.toNat_ofNat_of_lt' hlt
      apply h (.ofNat n)
      · rwa [hone, hsmall]
      · rwa [hsmall]
  · intro p hslashes hdex
    obtain ⟨n, -, -, rfl⟩ := isDex_iff.1 hdex
    exact hslashes (count_slash_chars_dex n)

end EntryPath
end BundlePackaging
