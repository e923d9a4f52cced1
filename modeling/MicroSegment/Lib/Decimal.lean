import Mathlib

/-!
# Decimal numerals

`atoi` is Go's `strconv.Atoi` on a string of bytes: an optional sign, then at least one decimal
digit, with a value that fits a 64-bit `int`; anything else is an error. `Nat.toDigits 10` writes
a natural number as `fmt` prints it with `%d`. What is written reads back (`atoi_toDigits`).
-/

namespace Decimal

def digitsFrom (acc : Nat) : List Char → Option Nat
  | [] => some acc
  | c :: cs => if c.isDigit then digitsFrom (acc * 10 + (c.toNat - 48)) cs else none

/-- The sign `strconv.Atoi` takes off the front, and the rest. -/
def splitSign : List Char → Bool × List Char
  | '-' :: t => (true, t)
  | '+' :: t => (false, t)
  | t => (false, t)

/-- `strconv.Atoi`. -/
def atoi (s : List Char) : Option Int :=
  if (splitSign s).2 = [] then none
  else
    match digitsFrom 0 (splitSign s).2 with
    | none => none
    | some n =>
      let v : Int := if (splitSign s).1 then -(n : Int) else n
      if -2 ^ 63 ≤ v ∧ v < 2 ^ 63 then some v else none

/-- `strconv.Itoa`. -/
def itoa (v : Int) : List Char :=
  if v < 0 then '-' :: Nat.toDigits 10 v.natAbs else Nat.toDigits 10 v.toNat

theorem digitsFrom_append (acc : Nat) (l₁ l₂ : List Char) :
    digitsFrom acc (l₁ ++ l₂) = (digitsFrom acc l₁).bind fun n => digitsFrom n l₂ := by
  induction l₁ generalizing acc with
  | nil => rfl
  | cons c cs ih =>
    show (if c.isDigit then digitsFrom _ (cs ++ l₂) else none) =
      (if c.isDigit then digitsFrom _ cs else none).bind _
    split
    · exact ih _
    · rfl

theorem digitsFrom_digitChar (acc : Nat) {d : Nat} (digit : d < 10) :
    digitsFrom acc [Nat.digitChar d] = some (acc * 10 + d) := by
  unfold digitsFrom digitsFrom
  rw [if_pos (by simpa using digit), Nat.toNat_digitChar_sub_48_of_lt_ten digit]

theorem digitsFrom_toDigits (n : Nat) : digitsFrom 0 (Nat.toDigits 10 n) = some n := by
  induction n using Nat.strongRecOn with
  | ind n ih =>
    rw [Nat.toDigits_eq_if (by decide)]
    split
    · next small =>
      rw [digitsFrom_digitChar 0 small, Nat.zero_mul, Nat.zero_add]
    · next large =>
      -- the last digit is read after the number the others stand for
      rw [digitsFrom_append, ih (n / 10) (by omega), Option.bind_some,
        digitsFrom_digitChar _ (Nat.mod_lt n (by decide)), Nat.div_add_mod']

theorem splitSign_of_isDigit {c : Char} (digit : c.isDigit = true) (t : List Char) :
    splitSign (c :: t) = (false, c :: t) := by
  unfold splitSign
  split
  · next same => rw [(List.cons.inj same).1] at digit; exact absurd digit (by decide)
  · next same => rw [(List.cons.inj same).1] at digit; exact absurd digit (by decide)
  · rfl

theorem splitSign_toDigits (n : Nat) : splitSign (Nat.toDigits 10 n) = (false, Nat.toDigits 10 n) := by
  cases digits : Nat.toDigits 10 n with
  | nil => exact absurd digits Nat.toDigits_ne_nil
  | cons c t =>
    have digit : c.isDigit = true :=
      Nat.isDigit_of_mem_toDigits (b := 10) (n := n) (by decide) (by decide)
        (by rw [digits]; exact List.mem_cons_self)
    exact splitSign_of_isDigit digit t

/-- `strconv.Atoi` reads back what `%d` prints of a number that fits 64 bits. -/
theorem atoi_toDigits {n : Nat} (small : n < 2 ^ 63) :
    atoi (Nat.toDigits 10 n) = some (n : Int) := by
  unfold atoi
  rw [splitSign_toDigits, if_neg Nat.toDigits_ne_nil, digitsFrom_toDigits]
  dsimp only
  rw [if_pos ⟨by omega, by omega⟩]
  rfl

end Decimal
