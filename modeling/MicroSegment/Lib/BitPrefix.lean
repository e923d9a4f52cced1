import Mathlib

/-!
# Common high bits of a list of numbers

Numbers agree from bit `k` up when their shifts by `k` are equal. For a nonempty list with
bitwise `and` `v` and maximum `m`, every member agrees with `v` from bit `k` up exactly when
`m - v < 2 ^ k`. So `Nat.size (m - v)` is the least `k` from which all the members agree, and
`v` shifted by it is their common high part.

The numbers that agree with an aligned `base` from bit `k` up are the interval
`[base, base + 2 ^ k - 1]`, so such a block lies within another as soon as its two ends do.
-/

namespace BitPrefix

/-- `v` has exactly the bits that every member of `xs` has. -/
def AndOf (v : Nat) (xs : List Nat) : Prop :=
  ∀ i, v.testBit i = true ↔ ∀ x ∈ xs, x.testBit i = true

theorem AndOf.singleton (x : Nat) : AndOf x [x] := by
  intro i
  simp

theorem AndOf.and {v : Nat} {xs : List Nat} (h : AndOf v xs) (y : Nat) :
    AndOf (v &&& y) (xs ++ [y]) := by
  intro i
  rw [Nat.testBit_and, Bool.and_eq_true, h i, List.forall_mem_append, List.forall_mem_singleton]

theorem AndOf.and_eq {v x : Nat} {xs : List Nat} (h : AndOf v xs) (mem : x ∈ xs) : v &&& x = v := by
  apply Nat.eq_of_testBit_eq
  intro i
  rw [Nat.testBit_and]
  cases bit : v.testBit i with
  | false => rfl
  | true => rw [(h i).mp bit x mem, Bool.and_true]

theorem sub_lt_two_pow_iff {v x k : Nat} (below : v &&& x = v) :
    x - v < 2 ^ k ↔ x >>> k = v >>> k := by
  have high : v >>> k &&& x >>> k = v >>> k := by
    rw [← Nat.shiftRight_and_distrib, below]
  have low : v % 2 ^ k &&& x % 2 ^ k = v % 2 ^ k := by
    rw [← Nat.and_mod_two_pow, below]
  have highLe : v >>> k ≤ x >>> k := high ▸ Nat.and_le_right
  have lowLe : v % 2 ^ k ≤ x % 2 ^ k := low ▸ Nat.and_le_right
  have lowLt := Nat.mod_lt x (Nat.two_pow_pos k)
  have splitX := Nat.div_add_mod x (2 ^ k)
  have splitV := Nat.div_add_mod v (2 ^ k)
  rw [Nat.shiftRight_eq_div_pow, Nat.shiftRight_eq_div_pow] at highLe ⊢
  constructor
  · intro lt
    by_contra differ
    have step : 2 ^ k * (v / 2 ^ k + 1) ≤ 2 ^ k * (x / 2 ^ k) :=
      Nat.mul_le_mul_left _ (by omega)
    rw [Nat.mul_add_one] at step
    omega
  · intro same
    rw [same] at splitX
    omega

theorem AndOf.shiftRight_eq {v c k : Nat} {xs : List Nat} (h : AndOf v xs) (nonempty : xs ≠ [])
    (common : ∀ x ∈ xs, x >>> k = c) : v >>> k = c := by
  obtain ⟨y, mem⟩ := List.exists_mem_of_ne_nil xs nonempty
  apply Nat.eq_of_testBit_eq
  intro i
  rw [Nat.testBit_shiftRight, ← common y mem, Nat.testBit_shiftRight]
  apply Bool.eq_iff_iff.mpr
  rw [h]
  constructor
  · intro all
    exact all y mem
  · intro bit x mem'
    rw [← Nat.testBit_shiftRight, common x mem', ← common y mem, Nat.testBit_shiftRight]
    exact bit

section enclosure

variable {v m : Nat} {xs : List Nat} (h : AndOf v xs) (top : m ∈ xs) (max : ∀ x ∈ xs, x ≤ m)
include h top max

theorem agree_iff_sub_lt (k : Nat) :
    (∀ x ∈ xs, x >>> k = v >>> k) ↔ m - v < 2 ^ k := by
  constructor
  · intro agree
    exact (sub_lt_two_pow_iff (h.and_eq top)).mpr (agree m top)
  · intro lt x mem
    exact (sub_lt_two_pow_iff (h.and_eq mem)).mp (lt_of_le_of_lt (Nat.sub_le_sub_right (max x mem) v) lt)

theorem common_iff_size_le (k : Nat) :
    (∃ c, ∀ x ∈ xs, x >>> k = c) ↔ Nat.size (m - v) ≤ k := by
  rw [Nat.size_le, ← agree_iff_sub_lt h top max]
  constructor
  · rintro ⟨c, common⟩ x mem
    rw [common x mem, h.shiftRight_eq (List.ne_nil_of_mem top) common]
  · intro agree
    exact ⟨v >>> k, agree⟩

theorem agree_size : ∀ x ∈ xs, x >>> Nat.size (m - v) = v >>> Nat.size (m - v) :=
  (agree_iff_sub_lt h top max _).mpr (Nat.lt_size_self _)

end enclosure

section blocks

variable {base x k : Nat}

theorem eq_two_pow_mul_of_aligned (aligned : base % 2 ^ k = 0) : base = 2 ^ k * (base >>> k) := by
  have split := Nat.div_add_mod base (2 ^ k)
  rw [aligned, Nat.add_zero] at split
  rw [Nat.shiftRight_eq_div_pow, split]

theorem or_low_eq_add (aligned : base % 2 ^ k = 0) : base ||| (2 ^ k - 1) = base + (2 ^ k - 1) := by
  rw [eq_two_pow_mul_of_aligned aligned]
  exact (Nat.two_pow_add_eq_or_of_lt (Nat.sub_lt (Nat.two_pow_pos k) Nat.one_pos) _).symm

theorem bounds_of_shiftRight_eq (aligned : base % 2 ^ k = 0) (same : x >>> k = base >>> k) :
    base ≤ x ∧ x ≤ base + (2 ^ k - 1) := by
  have splitX := Nat.div_add_mod x (2 ^ k)
  have low := Nat.mod_lt x (Nat.two_pow_pos k)
  have multiple := eq_two_pow_mul_of_aligned aligned
  simp only [Nat.shiftRight_eq_div_pow] at same multiple
  rw [same] at splitX
  generalize 2 ^ k * (base / 2 ^ k) = q at splitX multiple
  omega

theorem shiftRight_last (aligned : base % 2 ^ k = 0) :
    (base + (2 ^ k - 1)) >>> k = base >>> k := by
  have multiple := eq_two_pow_mul_of_aligned aligned
  simp only [Nat.shiftRight_eq_div_pow] at multiple ⊢
  nth_rewrite 1 [multiple]
  rw [Nat.mul_add_div (Nat.two_pow_pos k),
    Nat.div_eq_of_lt (Nat.sub_lt (Nat.two_pow_pos k) Nat.one_pos), Nat.add_zero]

theorem shiftRight_eq_of_between {y z : Nat} (lo : x ≤ y) (hi : y ≤ z)
    (same : x >>> k = z >>> k) : y >>> k = x >>> k := by
  simp only [Nat.shiftRight_eq_div_pow] at same ⊢
  exact le_antisymm (same ▸ Nat.div_le_div_right hi) (Nat.div_le_div_right lo)

theorem shiftRight_eq_of_ends {k' c : Nat} (aligned : base % 2 ^ k = 0)
    (first : base >>> k' = c) (last : (base + (2 ^ k - 1)) >>> k' = c)
    (same : x >>> k = base >>> k) : x >>> k' = c := by
  obtain ⟨lo, hi⟩ := bounds_of_shiftRight_eq aligned same
  rw [shiftRight_eq_of_between lo hi (first.trans last.symm), first]

end blocks

end BitPrefix
