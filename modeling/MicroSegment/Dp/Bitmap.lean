import Mathlib
import MicroSegment.Lib.RangeFind

/-!
# Bitmaps (`dp/utils/bitmap.c`)

A bitmap of `bits` bits kept in 32-bit words. `bitmap_get_next_zero` looks for a clear bit from
`n` to the end of `n`'s word, then in the words after it, then from the first word to `n`'s
word again, skipping the bits of the last word past `bits`. Its result is the first clear bit at
or after `n` in cyclic order (`bitmapGetNextZero_eq`).
-/

namespace MicroSegment.Dp

open RangeFind

def bitmapShift : Nat := 5

def bitmapMask : Nat := 31

/-- `bitmap`: `bits` bits in `words` words, `words` the array's length. -/
structure Bitmap where
  bits : Nat
  array : List UInt32
  words_eq : array.length = (bits + 31) / 32

/-- `bitmap_allocate`: every bit clear. -/
def bitmapAllocate (bits : Nat) : Bitmap := ⟨bits, List.replicate ((bits + 31) / 32) 0, by simp⟩

def bitmapSet (b : Bitmap) (n : Nat) : Bitmap :=
  ⟨b.bits, b.array.modify (n >>> bitmapShift) (· ||| (1 <<< UInt32.ofNat (n &&& bitmapMask))),
    by simp [b.words_eq]⟩

def bitmapClear (b : Bitmap) (n : Nat) : Bitmap :=
  ⟨b.bits, b.array.modify (n >>> bitmapShift) (· &&& ~~~(1 <<< UInt32.ofNat (n &&& bitmapMask))),
    by simp [b.words_eq]⟩

def bitmapIsSet (b : Bitmap) (n : Nat) : Bool :=
  (b.array.getD (n >>> bitmapShift) 0 >>> UInt32.ofNat (n &&& bitmapMask)) &&& 1 ≠ 0

/-- The loop of `get_one_pos_from_word`, with the shifts it has left as fuel: a 32-bit word is
zero after 32 of them. -/
def getOnePosLoop : Nat → UInt32 → Nat → Int
  | 0, _, _ => -1
  | fuel + 1, w, start =>
    if w > 0 then
      if w &&& 1 ≠ 0 then start else getOnePosLoop fuel (w >>> 1) (start + 1)
    else -1

/-- `get_one_pos_from_word`: the first set bit of `w` at or after `start`, or -1. -/
def getOnePosFromWord (w : UInt32) (start : Nat) : Int :=
  getOnePosLoop 32 (w >>> UInt32.ofNat start) start

/-- The loops of `bitmap_get_next_zero` over whole words: the first clear bit of the first word
of `is` that has one below `bits`. -/
def scanWords (b : Bitmap) : List Nat → Option Int
  | [] => none
  | i :: is =>
    let tmp := ~~~(b.array.getD i 0)
    if tmp ≠ 0 then
      let ret := getOnePosFromWord tmp 0 + ((i <<< bitmapShift : Nat) : Int)
      if ret < b.bits then some ret else scanWords b is
    else scanWords b is

def bitmapGetNextZero (b : Bitmap) (n : Int) : Int :=
  let n : Nat := if n < 0 ∨ n ≥ b.bits then 0 else n.toNat
  let word := n >>> bitmapShift
  let position := n &&& bitmapMask
  let idx := getOnePosFromWord (~~~(b.array.getD word 0)) position
  let ret := idx + ((word <<< bitmapShift : Nat) : Int)
  if idx ≥ 0 ∧ ret < b.bits then ret
  else
    match scanWords b (List.range' (word + 1) (b.array.length - (word + 1))) with
    | some ret => ret
    | none =>
      match scanWords b (List.range (word + 1)) with
      | some ret => ret
      | none => -1

/-! ### The bits a bitmap holds -/

def Bitmap.bit (b : Bitmap) (k : Nat) : Bool := (b.array.getD (k / 32) 0).toNat.testBit (k % 32)

theorem shiftRight_bitmapShift (n : Nat) : n >>> bitmapShift = n / 32 := by
  simp [bitmapShift, Nat.shiftRight_eq_div_pow]

theorem shiftLeft_bitmapShift (n : Nat) : n <<< bitmapShift = 32 * n := by
  simp [bitmapShift, Nat.shiftLeft_eq, Nat.mul_comm]

theorem and_bitmapMask (n : Nat) : n &&& bitmapMask = n % 32 := by
  simpa [bitmapMask] using Nat.and_two_pow_sub_one_eq_mod n 5

theorem toNat_ofNat_mod_32 (n : Nat) : (UInt32.ofNat (n % 32)).toNat = n % 32 :=
  UInt32.toNat_ofNat_of_lt' (Nat.lt_of_lt_of_le (Nat.mod_lt n (by decide)) (by decide))

theorem and_one_ne_zero_iff (v : UInt32) : v &&& 1 ≠ 0 ↔ v.toNat.testBit 0 = true := by
  rw [Nat.testBit_zero, decide_eq_true_iff, Ne, ← UInt32.toNat_inj, UInt32.toNat_and]
  simp [Nat.and_one_is_mod]

theorem testBit_not (w : UInt32) {k : Nat} (lt : k < 32) :
    (~~~w).toNat.testBit k = !w.toNat.testBit k := by
  show (~~~w).toBitVec.toNat.testBit k = !w.toBitVec.toNat.testBit k
  rw [UInt32.toBitVec_not, BitVec.testBit_toNat, BitVec.testBit_toNat, BitVec.getLsbD_not]
  simp [lt]

theorem testBit_of_ge_32 (w : UInt32) {k : Nat} (ge : 32 ≤ k) : w.toNat.testBit k = false :=
  Nat.testBit_lt_two_pow (Nat.lt_of_lt_of_le w.toNat_lt (Nat.pow_le_pow_right (by decide) ge))

theorem bitmapIsSet_eq (b : Bitmap) (n : Nat) : bitmapIsSet b n = b.bit n := by
  have shift : (b.array.getD (n / 32) 0 >>> UInt32.ofNat (n % 32)).toNat =
      (b.array.getD (n / 32) 0).toNat >>> (n % 32) := by
    rw [UInt32.toNat_shiftRight, toNat_ofNat_mod_32, Nat.mod_mod_of_dvd _ (by decide)]
  unfold bitmapIsSet Bitmap.bit
  rw [shiftRight_bitmapShift, and_bitmapMask, Bool.eq_iff_iff, decide_eq_true_iff,
    and_one_ne_zero_iff, shift, Nat.testBit_shiftRight, Nat.add_zero]

theorem getOnePosLoop_eq (fuel : Nat) :
    ∀ (w : UInt32) (start : Nat), w.toNat < 2 ^ fuel →
      getOnePosLoop fuel w start =
        match firstIn w.toNat.testBit 0 fuel with
        | some k => (start + k : Nat)
        | none => -1 := by
  induction fuel with
  | zero =>
    intro w start _
    simp [getOnePosLoop, firstIn_of_le _ (Nat.le_refl 0)]
  | succ fuel ih =>
    intro w start small
    by_cases zero : w = 0
    · -- no set bit at all
      subst zero
      have none : firstIn (0 : UInt32).toNat.testBit 0 (fuel + 1) = none :=
        firstIn_eq_none_iff.mpr fun k _ _ => by simp
      rw [none, getOnePosLoop, if_neg (by decide)]
    · have pos : w > 0 := by
        show (0 : UInt32) < w
        rw [UInt32.lt_iff_toNat_lt]
        have : w.toNat ≠ 0 := fun eq => zero (UInt32.toNat_inj.mp (by simpa using eq))
        simpa using Nat.pos_of_ne_zero this
      rw [getOnePosLoop, if_pos pos, firstIn_of_lt _ (Nat.succ_pos fuel)]
      by_cases first : w.toNat.testBit 0 = true
      · rw [if_pos ((and_one_ne_zero_iff w).mpr first), if_pos first]
        simp
      · -- the search goes on in the word shifted by one
        have half : (w >>> 1).toNat = w.toNat / 2 := by
          rw [UInt32.toNat_shiftRight]
          simp [Nat.shiftRight_eq_div_pow]
        have rest := ih (w >>> 1) (start + 1) (by rw [half]; omega)
        have shifted : firstIn w.toNat.testBit (0 + 1) (fuel + 1) =
            (firstIn (w >>> 1).toNat.testBit 0 fuel).map (· + 1) := by
          rw [firstIn_shift w.toNat.testBit 0 fuel 1]
          congr 1
          apply firstIn_congr
          intro k _ _
          rw [half, Nat.testBit_div_two]
        rw [if_neg (fun low => first ((and_one_ne_zero_iff w).mp low)), if_neg first, shifted, rest]
        cases firstIn (w >>> 1).toNat.testBit 0 fuel with
        | none => rfl
        | some k => simp [Nat.add_assoc, Nat.add_comm 1 k]

theorem getOnePosFromWord_eq (w : UInt32) {start : Nat} (lt : start < 32) :
    getOnePosFromWord w start =
      match firstIn w.toNat.testBit start 32 with
      | some k => (k : Int)
      | none => -1 := by
  have shifted : (w >>> UInt32.ofNat start).toNat = w.toNat >>> start := by
    rw [UInt32.toNat_shiftRight, UInt32.toNat_ofNat_of_lt' (by unfold UInt32.size; omega),
      Nat.mod_eq_of_lt lt]
  have small : (w >>> UInt32.ofNat start).toNat < 2 ^ 32 := UInt32.toNat_lt _
  rw [getOnePosFromWord, getOnePosLoop_eq 32 _ start small]
  -- the bits of the shifted word are those of `w` from `start`, and `w` has none past 32
  have moved : firstIn w.toNat.testBit start 32 =
      (firstIn (w >>> UInt32.ofNat start).toNat.testBit 0 32).map (· + start) := by
    have past : firstIn w.toNat.testBit 32 (32 + start) = none :=
      firstIn_eq_none_iff.mpr fun k low _ => testBit_of_ge_32 w low
    have extend : firstIn w.toNat.testBit start 32 =
        firstIn w.toNat.testBit (0 + start) (32 + start) := by
      rw [Nat.zero_add, firstIn_split w.toNat.testBit (Nat.le_of_lt lt) (Nat.le_add_right 32 start),
        past, Option.or_none]
    rw [extend, firstIn_shift]
    congr 1
    apply firstIn_congr
    intro k _ _
    rw [shifted, Nat.testBit_shiftRight, Nat.add_comm]
  rw [moved]
  cases firstIn (w >>> UInt32.ofNat start).toNat.testBit 0 32 with
  | none => rfl
  | some k => simp [Nat.add_comm]

def Bitmap.firstClear (b : Bitmap) (lo hi : Nat) : Option Nat := firstIn (fun k => !b.bit k) lo hi

theorem Bitmap.bit_word (b : Bitmap) (i : Nat) {k : Nat} (lt : k < 32) :
    b.bit (k + 32 * i) = (b.array.getD i 0).toNat.testBit k := by
  unfold Bitmap.bit
  rw [show (k + 32 * i) / 32 = i by omega, show (k + 32 * i) % 32 = k by omega]

theorem firstClear_word (b : Bitmap) (i p : Nat) :
    b.firstClear (p + 32 * i) (32 + 32 * i) =
      (firstIn (~~~(b.array.getD i 0)).toNat.testBit p 32).map (· + 32 * i) := by
  rw [Bitmap.firstClear, firstIn_shift]
  congr 1
  apply firstIn_congr
  intro k _ lt
  rw [b.bit_word i lt, testBit_not _ lt]

theorem firstIn_testBit_of_ne_zero {w : UInt32} (ne : w ≠ 0) : firstIn w.toNat.testBit 0 32 ≠ none := by
  intro none
  apply ne
  apply UInt32.toNat_inj.mp
  rw [UInt32.toNat_zero]
  apply Nat.zero_of_testBit_eq_false
  intro k
  by_cases lt : k < 32
  · exact firstIn_eq_none_iff.mp none k (Nat.zero_le k) lt
  · exact testBit_of_ge_32 w (by omega)

theorem scanWords_cons (b : Bitmap) (a : Nat) (is : List Nat) :
    scanWords b (a :: is) =
      ((b.firstClear (32 * a) (min (32 + 32 * a) b.bits)).map Int.ofNat).or (scanWords b is) := by
  have word := firstClear_word b a 0
  rw [Nat.zero_add] at word
  have split : b.firstClear (32 * a) (min (32 + 32 * a) b.bits) =
      (b.firstClear (32 * a) (32 + 32 * a)).filter fun k => decide (k < b.bits) :=
    firstIn_min _ _ _ _
  rw [split, word, scanWords.eq_2]
  simp only [shiftLeft_bitmapShift]
  by_cases zero : ~~~(b.array.getD a 0) = 0
  · have none : firstIn (~~~(b.array.getD a 0)).toNat.testBit 0 32 = none := by
      rw [zero]
      exact firstIn_eq_none_iff.mpr fun k _ _ => by simp
    rw [if_neg (not_not.mpr zero), none]
    rfl
  · obtain ⟨k, found⟩ := Option.ne_none_iff_exists'.mp (firstIn_testBit_of_ne_zero zero)
    rw [if_pos zero, getOnePosFromWord_eq _ (by decide), found, Option.map_some, Option.filter_some]
    by_cases below : k + 32 * a < b.bits
    · have below' : (k : Int) + ((32 * a : Nat) : Int) < b.bits := by omega
      rw [if_pos below', if_pos (decide_eq_true below), Option.map_some, Option.some_or]
      congr 1
    · have above : ¬ (k : Int) + ((32 * a : Nat) : Int) < b.bits := by omega
      rw [if_neg above, if_neg (by simpa using below)]
      rfl

theorem scanWords_range' (b : Bitmap) (n : Nat) :
    ∀ a, scanWords b (List.range' a n) =
      (b.firstClear (32 * a) (min (32 * (a + n)) b.bits)).map Int.ofNat := by
  induction n with
  | zero =>
    intro a
    rw [Bitmap.firstClear, firstIn_of_le _ (by omega)]
    rfl
  | succ n ih =>
    intro a
    rw [List.range'_succ, scanWords_cons, ih (a + 1)]
    by_cases past : b.bits ≤ 32 * a
    · -- the words lie past the last bit
      rw [Bitmap.firstClear, firstIn_of_le _ (show min (32 + 32 * a) b.bits ≤ 32 * a by omega),
        Bitmap.firstClear, firstIn_of_le _ (show min (32 * (a + 1 + n)) b.bits ≤ 32 * (a + 1) by omega),
        Bitmap.firstClear, firstIn_of_le _ (show min (32 * (a + (n + 1))) b.bits ≤ 32 * a by omega)]
      rfl
    · -- the word's own bits, then the rest
      have whole : b.firstClear (32 * a) (min (32 * (a + (n + 1))) b.bits) =
          (b.firstClear (32 * a) (min (32 + 32 * a) b.bits)).or
            (b.firstClear (min (32 + 32 * a) b.bits) (min (32 * (a + (n + 1))) b.bits)) :=
        firstIn_split _ (by omega) (by omega)
      have rest : b.firstClear (min (32 + 32 * a) b.bits) (min (32 * (a + (n + 1))) b.bits) =
          b.firstClear (32 * (a + 1)) (min (32 * (a + 1 + n)) b.bits) := by
        by_cases full : 32 + 32 * a ≤ b.bits
        · rw [show min (32 + 32 * a) b.bits = 32 * (a + 1) by omega,
            show a + (n + 1) = a + 1 + n by omega]
        · rw [Bitmap.firstClear, firstIn_of_le _ (by omega), Bitmap.firstClear, firstIn_of_le _ (by omega)]
      rw [whole, rest]
      cases b.firstClear (32 * a) (min (32 + 32 * a) b.bits) <;> rfl

/-! ### Setting and clearing bits -/

theorem toNat_one_shiftLeft (n : Nat) :
    (1 <<< UInt32.ofNat (n % 32) : UInt32).toNat = 2 ^ (n % 32) := by
  rw [UInt32.toNat_shiftLeft, toNat_ofNat_mod_32, Nat.mod_mod_of_dvd _ (by decide),
    UInt32.toNat_one, Nat.one_shiftLeft]
  exact Nat.mod_eq_of_lt (Nat.pow_lt_pow_right (by decide) (Nat.mod_lt n (by decide)))

theorem bit_modify (b : Bitmap) (n k : Nat) (f : UInt32 → UInt32) (inside : n / 32 < b.array.length)
    (words_eq : (b.array.modify (n / 32) f).length = (b.bits + 31) / 32) :
    (⟨b.bits, b.array.modify (n / 32) f, words_eq⟩ : Bitmap).bit k =
      if k / 32 = n / 32 then (f (b.array.getD (n / 32) 0)).toNat.testBit (k % 32) else b.bit k := by
  unfold Bitmap.bit
  simp only [List.getD_eq_getElem?_getD, List.getElem?_modify]
  by_cases same : k / 32 = n / 32
  · rw [if_pos same, same]
    simp [List.getElem?_eq_getElem inside]
  · have other : n / 32 ≠ k / 32 := Ne.symm same
    rw [if_neg same]
    simp [other]

@[simp] theorem bits_bitmapSet (b : Bitmap) (n : Nat) : (bitmapSet b n).bits = b.bits := rfl

@[simp] theorem bits_bitmapClear (b : Bitmap) (n : Nat) : (bitmapClear b n).bits = b.bits := rfl

theorem bit_bitmapSet (b : Bitmap) {n : Nat} (inside : n < b.bits) (k : Nat) :
    (bitmapSet b n).bit k = (b.bit k || decide (k = n)) := by
  have word : n / 32 < b.array.length := by rw [b.words_eq]; omega
  unfold bitmapSet
  simp only [shiftRight_bitmapShift, and_bitmapMask]
  rw [bit_modify b n k _ word]
  by_cases same : k / 32 = n / 32
  · rw [if_pos same, UInt32.toNat_or, Nat.testBit_or, toNat_one_shiftLeft, Nat.testBit_two_pow,
      Bitmap.bit, same]
    congr 1
    apply decide_eq_decide.mpr
    omega
  · rw [if_neg same]
    have ne : k ≠ n := fun eq => same (by rw [eq])
    simp [ne]

theorem bit_bitmapClear (b : Bitmap) {n : Nat} (inside : n < b.bits) (k : Nat) :
    (bitmapClear b n).bit k = (b.bit k && !decide (k = n)) := by
  have word : n / 32 < b.array.length := by rw [b.words_eq]; omega
  unfold bitmapClear
  simp only [shiftRight_bitmapShift, and_bitmapMask]
  rw [bit_modify b n k _ word]
  by_cases same : k / 32 = n / 32
  · rw [if_pos same, UInt32.toNat_and, Nat.testBit_and, testBit_not _ (Nat.mod_lt k (by decide)),
      toNat_one_shiftLeft, Nat.testBit_two_pow, Bitmap.bit, same]
    congr 2
    apply decide_eq_decide.mpr
    omega
  · rw [if_neg same]
    have ne : k ≠ n := fun eq => same (by rw [eq])
    simp [ne]

@[simp] theorem bit_bitmapAllocate (bits k : Nat) : (bitmapAllocate bits).bit k = false := by
  simp [bitmapAllocate, Bitmap.bit, List.getD_eq_getElem?_getD, List.getElem?_replicate]
  split <;> simp

theorem orElse_searches (c : Prop) [Decidable c] (r : Int) (o₂ o₃ : Option Int) :
    (if c then r else
      match o₂ with
      | some ret => ret
      | none =>
        match o₃ with
        | some ret => ret
        | none => -1) =
    match (if c then some r else none).or (o₂.or o₃) with
    | some ret => ret
    | none => -1 := by
  by_cases holds : c
  · simp [holds]
  · cases o₂ <;> cases o₃ <;> simp [holds]

/-- `bitmap_get_next_zero` returns the first clear bit at or after `n` in cyclic order, `n` taken
as 0 when it lies outside the bitmap, and -1 when every bit is set. -/
theorem bitmapGetNextZero_eq (b : Bitmap) (n : Int) :
    bitmapGetNextZero b n =
      match (b.firstClear (if n < 0 ∨ n ≥ b.bits then 0 else n.toNat) b.bits).or
          (b.firstClear 0 (if n < 0 ∨ n ≥ b.bits then 0 else n.toNat)) with
      | some k => (k : Int)
      | none => -1 := by
  unfold bitmapGetNextZero
  generalize startEq : (if n < 0 ∨ n ≥ b.bits then 0 else n.toNat) = start
  have inside : start = 0 ∨ start < b.bits := by
    rw [← startEq]
    split <;> omega
  simp only [shiftRight_bitmapShift, and_bitmapMask, shiftLeft_bitmapShift]
  rw [orElse_searches]
  -- the search in `start`'s word, from `start` to the word's end
  have word := firstClear_word b (start / 32) (start % 32)
  rw [show start % 32 + 32 * (start / 32) = start by omega] at word
  have first : (if getOnePosFromWord (~~~(b.array.getD (start / 32) 0)) (start % 32) ≥ 0 ∧
        getOnePosFromWord (~~~(b.array.getD (start / 32) 0)) (start % 32) +
          ((32 * (start / 32) : Nat) : Int) < b.bits
      then some (getOnePosFromWord (~~~(b.array.getD (start / 32) 0)) (start % 32) +
          ((32 * (start / 32) : Nat) : Int)) else none) =
      (b.firstClear start (min (32 + 32 * (start / 32)) b.bits)).map Int.ofNat := by
    rw [Bitmap.firstClear, firstIn_min, ← Bitmap.firstClear, word,
      getOnePosFromWord_eq _ (Nat.mod_lt _ (by decide))]
    cases firstIn (~~~(b.array.getD (start / 32) 0)).toNat.testBit (start % 32) 32 with
    | none => simp
    | some k =>
      rw [Option.map_some, Option.filter_some]
      dsimp only
      by_cases below : k + 32 * (start / 32) < b.bits
      · rw [if_pos ⟨by omega, by omega⟩, if_pos (decide_eq_true below), Option.map_some,
          Int.ofNat_eq_natCast, Int.natCast_add]
      · rw [if_neg (by omega), if_neg (by simpa using below)]
        rfl
  -- the words after it, and the words up to it again
  have later := scanWords_range' b (b.array.length - (start / 32 + 1)) (start / 32 + 1)
  rw [show min (32 * (start / 32 + 1 + (b.array.length - (start / 32 + 1)))) b.bits = b.bits by
    rw [b.words_eq]; omega] at later
  have again := scanWords_range' b (start / 32 + 1) 0
  rw [← List.range_eq_range', Nat.mul_zero, Nat.zero_add] at again
  rw [first, later, again]
  -- from `start` to the end, then from 0 up to `start`
  have toEnd : b.firstClear start b.bits =
      (b.firstClear start (min (32 + 32 * (start / 32)) b.bits)).or
        (b.firstClear (32 * (start / 32 + 1)) b.bits) := by
    by_cases full : 32 + 32 * (start / 32) ≤ b.bits
    · rw [show min (32 + 32 * (start / 32)) b.bits = 32 * (start / 32 + 1) by omega]
      exact firstIn_split _ (by omega) (by omega)
    · have none : b.firstClear (32 * (start / 32 + 1)) b.bits = none := firstIn_of_le _ (by omega)
      rw [show min (32 + 32 * (start / 32)) b.bits = b.bits by omega, none, Option.or_none]
  have fromZero : b.firstClear 0 (min (32 * (start / 32 + 1)) b.bits) =
      (b.firstClear 0 start).or (b.firstClear start (min (32 + 32 * (start / 32)) b.bits)) := by
    rw [show 32 * (start / 32 + 1) = 32 + 32 * (start / 32) by omega]
    exact firstIn_split _ (Nat.zero_le _) (by omega)
  rw [toEnd, fromZero]
  cases b.firstClear start (min (32 + 32 * (start / 32)) b.bits) <;>
    cases b.firstClear (32 * (start / 32 + 1)) b.bits <;>
    cases b.firstClear 0 start <;> rfl

theorem bitmapGetNextZero_cases (b : Bitmap) (n : Int) :
    (∃ k, k < b.bits ∧ b.bit k = false ∧ bitmapGetNextZero b n = k) ∨
      ((∀ k, k < b.bits → b.bit k = true) ∧ bitmapGetNextZero b n = -1) := by
  rw [bitmapGetNextZero_eq]
  have inside : (if n < 0 ∨ n ≥ b.bits then 0 else n.toNat) ≤ b.bits := by
    split <;> omega
  generalize (if n < 0 ∨ n ≥ b.bits then 0 else n.toNat) = start at inside
  cases after : b.firstClear start b.bits with
  | some k =>
    obtain ⟨_, below, clear, _⟩ := firstIn_eq_some_iff.mp after
    exact .inl ⟨k, below, by simpa using clear, rfl⟩
  | none =>
    cases before : b.firstClear 0 start with
    | some k =>
      obtain ⟨_, below, clear, _⟩ := firstIn_eq_some_iff.mp before
      exact .inl ⟨k, by omega, by simpa using clear, rfl⟩
    | none =>
      refine .inr ⟨fun k below => ?_, rfl⟩
      by_cases late : start ≤ k
      · simpa using firstIn_eq_none_iff.mp after k late below
      · simpa using firstIn_eq_none_iff.mp before k (Nat.zero_le k) (by omega)

theorem bitmapGetNextZero_eq_neg_one_iff (b : Bitmap) (n : Int) :
    bitmapGetNextZero b n = -1 ↔ ∀ k, k < b.bits → b.bit k = true := by
  rcases bitmapGetNextZero_cases b n with ⟨k, below, clear, found⟩ | ⟨full, none⟩
  · rw [found]
    constructor
    · intro neg
      omega
    · intro full
      rw [full k below] at clear
      exact Bool.noConfusion clear
  · exact ⟨fun _ => full, fun _ => none⟩

end MicroSegment.Dp
