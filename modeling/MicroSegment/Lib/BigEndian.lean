import Mathlib

/-!
# Big-endian byte strings

`ofBytes` reads a byte string as a big-endian number; `toBytes` writes the shortest big-endian
string of a number. Both go through `Nat.ofDigits` and `Nat.digits` in base 256, read from the
right. Bytewise `and` of two strings of one length is the `and` of their values, and the value
of `2 ^ n - 2 ^ k`, a mask of leading ones, keeps the bits of a value from `k` up.
-/

namespace BigEndian

def ofBytes (bs : List UInt8) : Nat := Nat.ofDigits 256 (bs.reverse.map UInt8.toNat)

def toBytes (n : Nat) : List UInt8 := ((Nat.digits 256 n).map UInt8.ofNat).reverse

@[simp] theorem ofBytes_nil : ofBytes [] = 0 := rfl

theorem ofBytes_append (a b : List UInt8) :
    ofBytes (a ++ b) = ofBytes a * 256 ^ b.length + ofBytes b := by
  unfold ofBytes
  rw [List.reverse_append, List.map_append, Nat.ofDigits_append, List.length_map,
    List.length_reverse]
  ring

theorem ofBytes_cons (x : UInt8) (a : List UInt8) :
    ofBytes (x :: a) = 2 ^ (8 * a.length) * x.toNat + ofBytes a := by
  have byte : ofBytes [x] = x.toNat := Nat.ofDigits_singleton
  rw [← List.singleton_append, ofBytes_append, byte, pow_mul]
  ring

theorem ofBytes_lt (bs : List UInt8) : ofBytes bs < 2 ^ (8 * bs.length) := by
  have digits : ∀ d ∈ bs.reverse.map UInt8.toNat, d < 256 := by
    intro d mem
    obtain ⟨b, -, rfl⟩ := List.mem_map.mp mem
    exact b.toNat_lt
  have bound := Nat.ofDigits_lt_base_pow_length (by norm_num) digits
  rwa [List.length_map, List.length_reverse, show (256 : Nat) = 2 ^ 8 by norm_num,
    ← pow_mul] at bound

theorem ofBytes_append_shiftRight (a b : List UInt8) :
    ofBytes (a ++ b) >>> (8 * b.length) = ofBytes a := by
  rw [ofBytes_append, Nat.shiftRight_eq_div_pow, show (256 : Nat) = 2 ^ 8 by norm_num, ← pow_mul,
    Nat.add_comm, Nat.add_mul_div_right _ _ (Nat.two_pow_pos _), Nat.div_eq_of_lt (ofBytes_lt b),
    Nat.zero_add]

theorem ofBytes_toBytes (n : Nat) : ofBytes (toBytes n) = n := by
  have bytes : ∀ d ∈ Nat.digits 256 n, (UInt8.ofNat d).toNat = d := fun d mem =>
    UInt8.toNat_ofNat_of_lt' (Nat.digits_lt_base (by norm_num) mem)
  have ids : (Nat.digits 256 n).map (UInt8.toNat ∘ UInt8.ofNat) = Nat.digits 256 n :=
    (List.map_congr_left bytes).trans (List.map_id _)
  unfold ofBytes toBytes
  rw [List.reverse_reverse, List.map_map, ids, Nat.ofDigits_digits]

theorem length_toBytes_le {n len : Nat} (lt : n < 2 ^ (8 * len)) : (toBytes n).length ≤ len := by
  rw [toBytes, List.length_reverse, List.length_map]
  exact (Nat.digits_length_le_iff (by norm_num) n).mpr (by rwa [pow_mul] at lt)

theorem ofBytes_replicate_zero_append (k : Nat) (bs : List UInt8) :
    ofBytes (List.replicate k 0 ++ bs) = ofBytes bs := by
  induction k with
  | zero => rfl
  | succ k ih => rw [List.replicate_succ, List.cons_append, ofBytes_cons, ih]; simp

theorem ofBytes_injective : ∀ {a b : List UInt8}, a.length = b.length → ofBytes a = ofBytes b →
    a = b
  | [], [], _, _ => rfl
  | x :: a, y :: b, len, same => by
    have len' : a.length = b.length := Nat.succ.inj len
    rw [ofBytes_cons, ofBytes_cons, len'] at same
    have high := congrArg (· / 2 ^ (8 * b.length)) same
    have low := congrArg (· % 2 ^ (8 * b.length)) same
    have ha := ofBytes_lt a
    have hb := ofBytes_lt b
    rw [len'] at ha
    simp only [Nat.mul_add_div (Nat.two_pow_pos _), Nat.div_eq_of_lt ha, Nat.div_eq_of_lt hb,
      Nat.mul_add_mod, Nat.mod_eq_of_lt ha, Nat.mod_eq_of_lt hb, Nat.add_zero] at high low
    rw [UInt8.toNat_inj.mp high, ofBytes_injective len' low]

theorem two_pow_mul_add_and {n x y p q : Nat} (hp : p < 2 ^ n) (hq : q < 2 ^ n) :
    (2 ^ n * x + p) &&& (2 ^ n * y + q) = 2 ^ n * (x &&& y) + (p &&& q) := by
  apply Nat.eq_of_testBit_eq
  intro i
  rw [Nat.testBit_and, Nat.testBit_two_pow_mul_add _ hp, Nat.testBit_two_pow_mul_add _ hq,
    Nat.testBit_two_pow_mul_add _ (Nat.and_lt_two_pow _ hq)]
  split_ifs <;> simp

theorem ofBytes_zipWith_and : ∀ {a b : List UInt8}, a.length = b.length →
    ofBytes (List.zipWith (· &&& ·) a b) = ofBytes a &&& ofBytes b
  | [], [], _ => rfl
  | x :: a, y :: b, len => by
    have len' : a.length = b.length := Nat.succ.inj len
    have zipped : (List.zipWith (· &&& ·) a b).length = b.length := by simp [len']
    rw [List.zipWith_cons_cons, ofBytes_cons, ofBytes_cons, ofBytes_cons, zipped, len',
      ofBytes_zipWith_and len', UInt8.toNat_and,
      two_pow_mul_add_and (len' ▸ ofBytes_lt a) (ofBytes_lt b)]

theorem testBit_two_pow_sub_two_pow {n k : Nat} (le : k ≤ n) (i : Nat) :
    (2 ^ n - 2 ^ k).testBit i = (decide (k ≤ i) && decide (i < n)) := by
  have shifted : 2 ^ n - 2 ^ k = (2 ^ (n - k) - 1) <<< k := by
    rw [Nat.shiftLeft_eq, Nat.sub_mul, one_mul, ← pow_add, Nat.sub_add_cancel le]
  rw [shifted, Nat.testBit_shiftLeft, Nat.testBit_two_pow_sub_one]
  by_cases below : k ≤ i <;> simp [below]; omega

theorem and_two_pow_sub_two_pow {n k x : Nat} (le : k ≤ n) (lt : x < 2 ^ n) :
    x &&& (2 ^ n - 2 ^ k) = x >>> k <<< k := by
  apply Nat.eq_of_testBit_eq
  intro i
  rw [Nat.testBit_and, testBit_two_pow_sub_two_pow le, Nat.testBit_shiftLeft,
    Nat.testBit_shiftRight]
  by_cases high : i < n
  · by_cases above : k ≤ i
    · simp [above, high, Nat.add_sub_cancel' above]
    · simp [above]
  · have clear : x.testBit i = false := Nat.testBit_lt_two_pow
      (lt_of_lt_of_le lt (Nat.pow_le_pow_right (by norm_num) (by omega)))
    by_cases above : k ≤ i
    · rw [Nat.add_sub_cancel' above]
      simp [clear]
    · simp [above]

theorem and_mask_eq_iff {n k x y : Nat} (le : k ≤ n) (hx : x < 2 ^ n) (hy : y < 2 ^ n) :
    x &&& (2 ^ n - 2 ^ k) = y &&& (2 ^ n - 2 ^ k) ↔ x >>> k = y >>> k := by
  rw [and_two_pow_sub_two_pow le hx, and_two_pow_sub_two_pow le hy]
  constructor
  · intro same
    rw [← Nat.shiftLeft_shiftRight (x >>> k) k, same, Nat.shiftLeft_shiftRight]
  · intro same
    rw [same]

end BigEndian
