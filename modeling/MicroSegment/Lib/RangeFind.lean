import Mathlib

/-!
# The first index of a range with a property

`firstIn p lo hi` is the least `k` with `lo ≤ k < hi` and `p k`. A scan that looks at a range in
pieces, or at a shifted copy of it, finds what `firstIn` finds on the whole: `firstIn_split` and
`firstIn_shift` say how the pieces compose.
-/

namespace RangeFind

def firstIn (p : Nat → Bool) (lo hi : Nat) : Option Nat := (List.range' lo (hi - lo)).find? p

variable {p q : Nat → Bool}

theorem firstIn_of_le (p : Nat → Bool) {lo hi : Nat} (le : hi ≤ lo) : firstIn p lo hi = none := by
  simp [firstIn, Nat.sub_eq_zero_of_le le]

theorem firstIn_of_lt (p : Nat → Bool) {lo hi : Nat} (lt : lo < hi) :
    firstIn p lo hi = if p lo then some lo else firstIn p (lo + 1) hi := by
  obtain ⟨n, rest⟩ : ∃ n, hi - lo = n + 1 := ⟨hi - lo - 1, by omega⟩
  have rest' : hi - (lo + 1) = n := by omega
  rw [firstIn, rest, List.range'_succ, List.find?_cons, firstIn, rest']
  cases p lo <;> rfl

theorem firstIn_eq_none_iff {lo hi : Nat} :
    firstIn p lo hi = none ↔ ∀ k, lo ≤ k → k < hi → p k = false := by
  simp only [firstIn, List.find?_eq_none, List.mem_range'_1, Bool.not_eq_true]
  constructor
  · intro none k low high
    exact none k ⟨low, by omega⟩
  · intro none k ⟨low, high⟩
    exact none k low (by omega)

theorem firstIn_eq_some_iff {lo hi k : Nat} :
    firstIn p lo hi = some k ↔ lo ≤ k ∧ k < hi ∧ p k = true ∧ ∀ j, lo ≤ j → j < k → p j = false := by
  induction h : hi - lo generalizing lo with
  | zero =>
    rw [firstIn_of_le p (by omega)]
    simp only [reduceCtorEq, false_iff]
    omega
  | succ n ih =>
    rw [firstIn_of_lt p (by omega)]
    by_cases first : p lo
    · simp only [first, if_true, Option.some.injEq]
      constructor
      · rintro rfl
        exact ⟨Nat.le_refl _, by omega, first, fun j low high => absurd high (by omega)⟩
      · rintro ⟨low, _, _, before⟩
        by_contra ne
        have := before lo (Nat.le_refl _) (by omega)
        rw [first] at this
        exact Bool.noConfusion this
    · simp only [first, Bool.false_eq_true, if_false]
      rw [ih (by omega)]
      constructor
      · rintro ⟨low, high, found, before⟩
        refine ⟨by omega, high, found, fun j low' lt => ?_⟩
        rcases Nat.eq_or_lt_of_le low' with rfl | gt
        · simpa using first
        · exact before j (by omega) lt
      · rintro ⟨low, high, found, before⟩
        have ne : k ≠ lo := by
          rintro rfl
          exact first found
        exact ⟨by omega, high, found, fun j low' lt => before j (by omega) lt⟩

/-- A range looked at in two pieces. -/
theorem firstIn_split (p : Nat → Bool) {lo mid hi : Nat} (low : lo ≤ mid) (high : mid ≤ hi) :
    firstIn p lo hi = (firstIn p lo mid).or (firstIn p mid hi) := by
  have pieces : List.range' lo (mid - lo) ++ List.range' mid (hi - mid) =
      List.range' lo (hi - lo) := by
    have joined : List.range' lo (mid - lo) ++ List.range' (lo + 1 * (mid - lo)) (hi - mid) =
        List.range' lo (mid - lo + (hi - mid)) := List.range'_append
    rwa [Nat.one_mul, Nat.add_sub_cancel' low, show mid - lo + (hi - mid) = hi - lo by omega] at joined
  rw [firstIn, ← pieces, List.find?_append]
  rfl

theorem firstIn_congr {lo hi : Nat} (same : ∀ k, lo ≤ k → k < hi → p k = q k) :
    firstIn p lo hi = firstIn q lo hi := by
  induction h : hi - lo generalizing lo with
  | zero => rw [firstIn_of_le p (by omega), firstIn_of_le q (by omega)]
  | succ n ih =>
    rw [firstIn_of_lt p (by omega), firstIn_of_lt q (by omega), same lo (Nat.le_refl _) (by omega),
      ih (fun k low high => same k (by omega) high) (by omega)]

/-- A range moved up by `d`. -/
theorem firstIn_shift (p : Nat → Bool) (lo hi d : Nat) :
    firstIn p (lo + d) (hi + d) = (firstIn (fun k => p (k + d)) lo hi).map (· + d) := by
  induction h : hi - lo generalizing lo with
  | zero =>
    rw [firstIn_of_le _ (by omega), firstIn_of_le _ (by omega)]
    rfl
  | succ n ih =>
    rw [firstIn_of_lt p (show lo + d < hi + d by omega),
      firstIn_of_lt (fun k => p (k + d)) (show lo < hi by omega),
      show lo + d + 1 = (lo + 1) + d by omega, ih (lo + 1) (by omega)]
    by_cases first : p (lo + d) <;> simp [first]

theorem firstIn_min (p : Nat → Bool) (lo hi c : Nat) :
    firstIn p lo (min hi c) = (firstIn p lo hi).filter fun k => decide (k < c) := by
  cases first : firstIn p lo hi with
  | none =>
    apply firstIn_eq_none_iff.mpr
    intro k low high
    exact firstIn_eq_none_iff.mp first k low (by omega)
  | some k =>
    obtain ⟨low, high, found, before⟩ := firstIn_eq_some_iff.mp first
    by_cases below : k < c
    · rw [Option.filter_some, if_pos (decide_eq_true below)]
      exact firstIn_eq_some_iff.mpr ⟨low, by omega, found, before⟩
    · rw [Option.filter_some, if_neg (by simpa using below)]
      apply firstIn_eq_none_iff.mpr
      intro j low' high'
      exact before j low' (by omega)

end RangeFind
