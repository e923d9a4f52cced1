import MicroSegment.Lib.Decimal

/-!
# Package versions (`share/utils/version.go`)

`NewVersion` splits a version string into epoch, version, revision and the `el` part of a Red Hat
release, and `Compare` orders two versions by these parts in turn with `verrevcmp`, the dpkg
comparison extended with a `.`-before-`_` rule and an `rc`/`pre` rule. Go strings are byte
strings: a string is modelled as the list of its bytes, each a character below 256, as
`rune(s[i])` sees them.

`verrevcmp`'s loops are written with explicit fuel, one above the bytes left, which they never use
up. Swapping the arguments negates every comparison (`verrevcmp_swap`, `compareVersions_swap`),
but the `rc`/`pre` rule looks at what is left of one string only, and breaks transitivity.
-/

namespace MicroSegment.Share

structure Version where
  epoch : Int
  version : List Char
  revision : List Char
  elVer : List Char
  deriving DecidableEq, Repr

/-- `MinVersion`, sorted first. -/
def minVersion : Version := ⟨0, ['#', 'M', 'I', 'N', 'V', '#'], [], []⟩

/-- `MaxVersion`, sorted last. -/
def maxVersion : Version := ⟨0, ['#', 'M', 'A', 'X', 'V', '#'], [], []⟩

def versionAllowedSymbols : List Char := ['.', '-', '+', '~', ':', '_']

def revisionAllowedSymbols : List Char := ['.', '+', '~', '_']

/-- `unicode.IsLetter` on the rune of a byte: the letters of Latin-1. -/
def isLetter (r : Char) : Bool :=
  let n := r.toNat
  (65 ≤ n && n ≤ 90) || (97 ≤ n && n ≤ 122) || n == 0xAA || n == 0xB5 || n == 0xBA ||
    (0xC0 ≤ n && n ≤ 0xD6) || (0xD8 ≤ n && n ≤ 0xF6) || (0xF8 ≤ n && n ≤ 0xFF)

/-- `Version.String`. -/
def Version.toString (v : Version) : List Char :=
  (if v.epoch ≠ 0 then Decimal.itoa v.epoch ++ [':'] else []) ++ v.version ++
    (if v.revision ≠ [] then '-' :: v.revision else []) ++
    (if v.elVer ≠ [] then '.' :: v.elVer else [])

def isAsciiSpace (c : Char) : Bool :=
  c == '\t' || c == '\n' || c == '\x0b' || c == '\x0c' || c == '\r' || c == ' '

/-- `strings.TrimSpace` on ASCII white space. -/
def trimSpace (s : List Char) : List Char :=
  ((s.dropWhile isAsciiSpace).reverse.dropWhile isAsciiSpace).reverse

/-- `strings.Index(s, string(c))`: the first index of `c`, or -1. -/
def indexOf (s : List Char) (c : Char) : Int :=
  match s.findIdx? (· == c) with
  | some i => i
  | none => -1

/-- `strings.LastIndex(s, sep)`: the last index where `sep` starts, or -1. -/
def lastIndex (s sep : List Char) : Int :=
  match ((List.range (s.length + 1)).filter fun i => sep.isPrefixOf (s.drop i)).getLast? with
  | some i => i
  | none => -1

def slice (s : List Char) (lo hi : Int) : Except String (List Char) :=
  if 0 ≤ lo ∧ lo ≤ hi ∧ hi ≤ s.length then .ok ((s.drop lo.toNat).take (hi - lo).toNat)
  else .error "slice bounds out of range"

def splitEl (s : List Char) : List Char × List Char :=
  let el := lastIndex s ['.', 'e', 'l']
  if el > -1 then (s.take el.toNat, s.drop (el + 1).toNat) else (s, [])

def allowed (symbols : List Char) (s : List Char) : Bool :=
  s.all fun r => r.isDigit || isLetter r || symbols.contains r

/-- `NewVersion`. A panic of the slice is an error here. -/
def newVersion (str : List Char) : Except String Version := do
  let str := trimSpace str
  if str.length = 0 then throw "Version string is empty"
  if str = maxVersion.toString then return maxVersion
  if str = minVersion.toString then return minVersion
  let sepepoch := indexOf str ':'
  let epoch ← if sepepoch > -1 then
      match Decimal.atoi (str.take sepepoch.toNat) with
      | none => throw "epoch in version is not a number"
      | some e => if e < 0 then throw "epoch in version is negative" else pure e
    else pure 0
  let seprevision := lastIndex str ['-']
  let (version, revision, elVer) ← if seprevision > -1 then do
      let version ← slice str (sepepoch + 1) seprevision
      let (revision, elVer) := splitEl (str.drop (seprevision + 1).toNat)
      pure (version, revision, elVer)
    else
      let (version, elVer) := splitEl (str.drop (sepepoch + 1).toNat)
      pure (version, [], elVer)
  if version.length = 0 then throw "No version"
  if !allowed versionAllowedSymbols version then throw "invalid character in version"
  if !allowed revisionAllowedSymbols revision then throw "invalid character in revision"
  if !allowed revisionAllowedSymbols elVer then throw "invalid character in revision"
  return ⟨epoch, version, revision, elVer⟩

/-! ### `verrevcmp` -/

/-- `order`: digits first, then letters by code, `~` before everything, other symbols last. -/
def order (r : Char) : Int :=
  if r.isDigit then 0
  else if isLetter r then r.toNat
  else if r = '~' then -1
  else r.toNat + 256

def rcAt : List Char → Bool
  | 'r' :: 'c' :: d :: _ => d.isDigit
  | 'p' :: 'r' :: 'e' :: d :: _ => d.isDigit
  | _ => false

/-- `rcRegex.MatchString`: a match anywhere. -/
def rcMatch : List Char → Bool
  | [] => false
  | c :: t => rcAt (c :: t) || rcMatch t

def orderOf : Option Char → Int
  | some r => order r
  | none => 0

def nonDigit : Option Char → Bool
  | some r => !r.isDigit
  | none => false

def nonDigitStep (r1 : Option Char) (t1 : List Char) (r2 : Option Char) (t2 : List Char) :
    Option Int :=
  let ac := orderOf r1
  let bc := orderOf r2
  -- `.` sorts after `_`
  if ac = 302 ∧ bc = 351 then some 1
  else if ac = 351 ∧ bc = 302 then some (-1)
  else if ac ≠ bc then
    -- a release candidate sorts before the release
    if ac > bc ∧ bc = 0 ∧ rcMatch t1 then some (-1)
    else if ac < bc ∧ ac = 0 ∧ rcMatch t2 then some 1
    else some (ac - bc)
  else none

def nonDigitLoop : Nat → List Char → List Char → Except Int (List Char × List Char)
  | 0, s1, s2 => .ok (s1, s2)
  | fuel + 1, s1, s2 =>
    if nonDigit s1.head? || nonDigit s2.head? then
      match nonDigitStep s1.head? s1.tail s2.head? s2.tail with
      | some r => .error r
      | none => nonDigitLoop fuel s1.tail s2.tail
    else .ok (s1, s2)

def digitLoop (firstDiff : Int) : List Char → List Char → Int × List Char × List Char
  | c1 :: t1, c2 :: t2 =>
    if c1.isDigit ∧ c2.isDigit then
      digitLoop (if firstDiff = 0 then (c1.toNat : Int) - c2.toNat else firstDiff) t1 t2
    else (firstDiff, c1 :: t1, c2 :: t2)
  | s1, s2 => (firstDiff, s1, s2)

def digitAt (s : List Char) : Bool := (s.head?.map Char.isDigit).getD false

def verrevcmpLoop : Nat → List Char → List Char → Int
  | 0, _, _ => 0
  | fuel + 1, s1, s2 =>
    if s1 = [] ∧ s2 = [] then 0
    else
      match nonDigitLoop (s1.length + s2.length + 1) s1 s2 with
      | .error r => r
      | .ok (s1, s2) =>
        let (firstDiff, s1, s2) :=
          digitLoop 0 (s1.dropWhile (· == '0')) (s2.dropWhile (· == '0'))
        if digitAt s1 then 1
        else if digitAt s2 then -1
        else if firstDiff ≠ 0 then firstDiff
        else verrevcmpLoop fuel s1 s2

def verrevcmp (t1 t2 : List Char) : Int := verrevcmpLoop (t1.length + t2.length + 1) t1 t2

/-! ### `Compare` and `CompareWithoutEpoch` -/

def signum (a : Int) : Int := if a < 0 then -1 else if a > 0 then 1 else 0

/-- `Compare`, which compares the epochs first, and `CompareWithoutEpoch`, which does not. -/
def compareVersions (epochs : Bool) (a b : Version) : Int :=
  if a = b then 0
  else if a = minVersion ∨ b = maxVersion then -1
  else if b = minVersion ∨ a = maxVersion then 1
  else if epochs ∧ a.epoch > b.epoch then 1
  else if epochs ∧ a.epoch < b.epoch then -1
  else
    let rc := verrevcmp a.version b.version
    if rc ≠ 0 then signum rc
    else
      let rc := verrevcmp a.revision b.revision
      if rc ≠ 0 then signum rc
      else signum (verrevcmp a.elVer b.elVer)

/-- `Version.Compare`. -/
def Version.compare (a b : Version) : Int := compareVersions true a b

/-- `Version.CompareWithoutEpoch`. -/
def Version.compareWithoutEpoch (a b : Version) : Int := compareVersions false a b

theorem signum_neg (x : Int) : signum (-x) = -signum x := by
  unfold signum
  split_ifs <;> omega

theorem nonDigitStep_swap (r1 : Option Char) (t1 : List Char) (r2 : Option Char) (t2 : List Char) :
    nonDigitStep r2 t2 r1 t1 = (nonDigitStep r1 t1 r2 t2).map (- ·) := by
  unfold nonDigitStep
  dsimp only
  generalize orderOf r1 = ac, orderOf r2 = bc
  -- each branch of one side meets the opposite branch of the other
  split_ifs <;> simp_all

def swapResult : Except Int (List Char × List Char) → Except Int (List Char × List Char)
  | .error r => .error (-r)
  | .ok (s1, s2) => .ok (s2, s1)

theorem nonDigitLoop_swap (fuel : Nat) (s1 s2 : List Char) :
    nonDigitLoop fuel s2 s1 = swapResult (nonDigitLoop fuel s1 s2) := by
  induction fuel generalizing s1 s2 with
  | zero => rfl
  | succ fuel ih =>
    unfold nonDigitLoop
    rw [Bool.or_comm, nonDigitStep_swap]
    split
    · cases step : nonDigitStep s1.head? s1.tail s2.head? s2.tail with
      | some r => rfl
      | none => exact ih _ _
    · rfl

theorem digitLoop_swap (d : Int) (s1 s2 : List Char) :
    digitLoop (-d) s2 s1 =
      (-(digitLoop d s1 s2).1, (digitLoop d s1 s2).2.2, (digitLoop d s1 s2).2.1) := by
  induction s1 generalizing d s2 with
  | nil => cases s2 <;> rfl
  | cons c1 t1 ih =>
    cases s2 with
    | nil => rfl
    | cons c2 t2 =>
      unfold digitLoop
      by_cases digits : c1.isDigit ∧ c2.isDigit
      · rw [if_pos ⟨digits.2, digits.1⟩, if_pos digits]
        -- the first difference of the swapped digits is the opposite one
        have first : (if -d = 0 then (c2.toNat : Int) - c1.toNat else -d) =
            -(if d = 0 then (c1.toNat : Int) - c2.toNat else d) := by
          split_ifs <;> omega
        rw [first]
        exact ih _ _
      · rw [if_neg (fun both => digits ⟨both.2, both.1⟩), if_neg digits]

theorem digitLoop_stops (d : Int) (s1 s2 : List Char) :
    ¬(digitAt (digitLoop d s1 s2).2.1 = true ∧ digitAt (digitLoop d s1 s2).2.2 = true) := by
  induction s1 generalizing d s2 with
  | nil => simp [digitLoop, digitAt]
  | cons c1 t1 ih =>
    cases s2 with
    | nil => simp [digitLoop, digitAt]
    | cons c2 t2 =>
      unfold digitLoop
      split
      · exact ih _ _
      · next stop =>
        simp only [digitAt, List.head?_cons, Option.map_some, Option.getD_some]
        exact stop

theorem verrevcmpLoop_swap (fuel : Nat) (s1 s2 : List Char) :
    verrevcmpLoop fuel s2 s1 = -verrevcmpLoop fuel s1 s2 := by
  induction fuel generalizing s1 s2 with
  | zero => rfl
  | succ fuel ih =>
    unfold verrevcmpLoop
    by_cases ended : s1 = [] ∧ s2 = []
    · rw [if_pos ⟨ended.2, ended.1⟩, if_pos ended, Int.neg_zero]
    · rw [if_neg (fun both => ended ⟨both.2, both.1⟩), if_neg ended, Nat.add_comm s2.length,
        nonDigitLoop_swap]
      cases nonDigitLoop (s1.length + s2.length + 1) s1 s2 with
      | error r => rfl
      | ok rest =>
        obtain ⟨a, b⟩ := rest
        dsimp only [swapResult]
        have swapped := digitLoop_swap 0 (a.dropWhile (· == '0')) (b.dropWhile (· == '0'))
        rw [Int.neg_zero] at swapped
        rw [swapped]
        have stops := digitLoop_stops 0 (a.dropWhile (· == '0')) (b.dropWhile (· == '0'))
        generalize digitLoop 0 (a.dropWhile (· == '0')) (b.dropWhile (· == '0')) = w at stops
        obtain ⟨firstDiff, a', b'⟩ := w
        dsimp only at stops ⊢
        -- at most one side goes on with a digit, and that side is the larger
        by_cases digit_b : digitAt b' = true
        · have digit_a : digitAt a' = false := by simpa [digit_b] using stops
          rw [if_pos digit_b, if_neg (by simp [digit_a]), if_pos digit_b]
          rfl
        · by_cases digit_a : digitAt a' = true
          · rw [if_neg digit_b, if_pos digit_a, if_pos digit_a]
          · rw [if_neg digit_b, if_neg digit_a, if_neg digit_a, if_neg digit_b, ih]
            by_cases zero : firstDiff = 0
            · rw [if_neg (by omega), if_neg (by omega)]
            · rw [if_pos (by omega), if_pos zero]

theorem verrevcmp_swap (t1 t2 : List Char) : verrevcmp t2 t1 = -verrevcmp t1 t2 := by
  unfold verrevcmp
  rw [Nat.add_comm t2.length]
  exact verrevcmpLoop_swap _ _ _

theorem minVersion_ne_maxVersion : minVersion ≠ maxVersion := by decide

/-- Swapping the versions negates the comparison. -/
theorem compareVersions_swap (epochs : Bool) (a b : Version) :
    compareVersions epochs b a = -compareVersions epochs a b := by
  unfold compareVersions
  by_cases same : a = b
  · rw [if_pos same.symm, if_pos same, Int.neg_zero]
  rw [if_neg (Ne.symm same), if_neg same]
  -- `MinVersion` and `MaxVersion` decide first, and never both ways
  have apart : ¬((a = minVersion ∨ b = maxVersion) ∧ (b = minVersion ∨ a = maxVersion)) := by
    rintro ⟨low | low, high | high⟩
    · exact same (low.trans high.symm)
    · exact minVersion_ne_maxVersion (low.symm.trans high)
    · exact minVersion_ne_maxVersion (high.symm.trans low)
    · exact same (high.trans low.symm)
  by_cases low : a = minVersion ∨ b = maxVersion
  · rw [if_neg (fun high => apart ⟨low, high⟩), if_pos low, if_pos low]
    rfl
  by_cases high : b = minVersion ∨ a = maxVersion
  · rw [if_pos high, if_neg low, if_pos high]
  rw [if_neg high, if_neg low, if_neg low, if_neg high, verrevcmp_swap a.version,
    verrevcmp_swap a.revision, verrevcmp_swap a.elVer]
  by_cases later : epochs = true ∧ a.epoch > b.epoch
  · rw [if_neg (by omega), if_pos (by omega), if_pos later]
  by_cases earlier : epochs = true ∧ a.epoch < b.epoch
  · rw [if_pos (by omega), if_neg later, if_pos earlier]
    rfl
  rw [if_neg (by omega), if_neg (by omega), if_neg later, if_neg earlier]
  dsimp only
  generalize verrevcmp a.version b.version = x, verrevcmp a.revision b.revision = y,
    verrevcmp a.elVer b.elVer = z
  rw [signum_neg, signum_neg, signum_neg]
  -- the same part decides on both sides
  split_ifs <;> first | rfl | omega

theorem compareVersions_self (epochs : Bool) (a : Version) : compareVersions epochs a a = 0 := by
  unfold compareVersions
  rw [if_pos rfl]

theorem compareVersions_minVersion (epochs : Bool) {v : Version} (other : v ≠ minVersion) :
    compareVersions epochs minVersion v = -1 := by
  unfold compareVersions
  rw [if_neg (Ne.symm other), if_pos (.inl rfl)]

theorem compareVersions_maxVersion (epochs : Bool) {v : Version} (other : v ≠ maxVersion) :
    compareVersions epochs v maxVersion = -1 := by
  unfold compareVersions
  rw [if_neg other, if_pos (.inr rfl)]

/-- `1_rc1`, `1` and `1_a`, as `NewVersion` parses them, break transitivity: `1_rc1` is below
`1`, because `rc1` follows the `_` where `1` has ended, and `1` is below `1_a`, but `1_rc1` is
above `1_a`, where `r` meets `a` and the `rc` rule does not apply. So for `Compare` and for
`CompareWithoutEpoch`. -/
theorem compare_not_transitive :
    newVersion ['1', '_', 'r', 'c', '1'] = .ok ⟨0, ['1', '_', 'r', 'c', '1'], [], []⟩ ∧
    newVersion ['1'] = .ok ⟨0, ['1'], [], []⟩ ∧
    newVersion ['1', '_', 'a'] = .ok ⟨0, ['1', '_', 'a'], [], []⟩ ∧
    (⟨0, ['1', '_', 'r', 'c', '1'], [], []⟩ : Version).compare ⟨0, ['1'], [], []⟩ = -1 ∧
    (⟨0, ['1'], [], []⟩ : Version).compare ⟨0, ['1', '_', 'a'], [], []⟩ = -1 ∧
    (⟨0, ['1', '_', 'r', 'c', '1'], [], []⟩ : Version).compare ⟨0, ['1', '_', 'a'], [], []⟩ = 1 ∧
    (⟨0, ['1', '_', 'r', 'c', '1'], [], []⟩ : Version).compareWithoutEpoch ⟨0, ['1'], [], []⟩ = -1 ∧
    (⟨0, ['1'], [], []⟩ : Version).compareWithoutEpoch ⟨0, ['1', '_', 'a'], [], []⟩ = -1 ∧
    (⟨0, ['1', '_', 'r', 'c', '1'], [], []⟩ : Version).compareWithoutEpoch
      ⟨0, ['1', '_', 'a'], [], []⟩ = 1 := by
  decide

end MicroSegment.Share
