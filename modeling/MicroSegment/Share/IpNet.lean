import MicroSegment.Lib.BigEndian

/-!
# Addresses and networks (`share/utils/utils.go`, Go's `net`)

An address is its byte slice: 4 bytes, or 16 with an IPv4 address written `::ffff:a.b.c.d`. A
nil slice is the empty list; Go's code tests slices for nil only where a nil and an empty slice
behave the same. The functions of Go's `net` package that the utilities call (`To4`, `To16`,
`CIDRMask`, `IP.Mask`, `IPNet.Contains`) follow their definitions there. `big.Int` values are
natural numbers, read by `SetBytes` as `BigEndian.ofBytes` and written by `Bytes` as
`BigEndian.toBytes`. A slice index out of range is a panic.
-/

namespace MicroSegment.Share

open BigEndian

abbrev IP := List UInt8
abbrev IPMask := List UInt8

/-- `net.IPNet`. -/
structure IPNet where
  ip : IP
  mask : IPMask
  deriving DecidableEq, Repr

/-- A Go run-time panic. -/
inductive Panic where
  | indexOutOfRange
  deriving DecidableEq, Repr

def v4InV6Prefix : List UInt8 := [0, 0, 0, 0, 0, 0, 0, 0, 0, 0, 0xff, 0xff]

/-- `IP.To4`: a 4-byte address, the last 4 bytes of a `::ffff:a.b.c.d` one, else nil. -/
def IP.to4 (ip : IP) : IP :=
  if ip.length = 4 then ip
  else if ip.length = 16 ∧ (ip.take 10).all (· == 0) ∧ ip[10]? = some 0xff ∧ ip[11]? = some 0xff then
    ip.drop 12
  else []

/-- `IP.To16`. -/
def IP.to16 (ip : IP) : IP :=
  if ip.length = 4 then v4InV6Prefix ++ ip
  else if ip.length = 16 then ip
  else []

def isIPv4 (ip : IP) : Bool := !ip.to4.isEmpty

/-- `IsIPv6`: true of every address of 4 or 16 bytes. -/
def isIPv6 (ip : IP) : Bool := !ip.to16.isEmpty

/-- `ipToInt`: the address's value and width, or nil. -/
def ipToInt (ip : IP) : Option (Nat × Nat) :=
  if isIPv4 ip ∧ ip.length ≥ 4 then some (ofBytes (ip.drop (ip.length - 4)), 32)
  else if isIPv6 ip ∧ ip.length ≥ 16 then some (ofBytes (ip.drop (ip.length - 16)), 128)
  else none

def intToIPStep (ipBytes : List UInt8) (ret : IP) (i : Nat) : Except Panic IP :=
  if ret.length < i then .error .indexOutOfRange
  else .ok (ret.set (ret.length - i) (ipBytes.getD (ipBytes.length - i) 0))

/-- `intToIP`: the bytes of `ipInt` packed into the end of `bits / 8` zero bytes, from the last. -/
def intToIP (ipInt bits : Nat) : Except Panic IP :=
  (List.range' 1 (toBytes ipInt).length).foldlM (intToIPStep (toBytes ipInt))
    (List.replicate (bits / 8) 0)

def cidrMaskBytes : Nat → Nat → IPMask
  | _, 0 => []
  | n, l + 1 =>
    if n ≥ 8 then 0xff :: cidrMaskBytes (n - 8) l
    else ~~~((0xff : UInt8) >>> n.toUInt8) :: cidrMaskBytes 0 l

/-- `net.CIDRMask`: `ones` leading one bits out of `bits`, or nil. -/
def cidrMask (ones bits : Int) : IPMask :=
  if bits ≠ 8 * 4 ∧ bits ≠ 8 * 16 then []
  else if ones < 0 ∨ ones > bits then []
  else cidrMaskBytes ones.toNat (bits / 8).toNat

/-- `IP.Mask`. -/
def IP.mask (ip : IP) (mask : IPMask) : IP :=
  let mask :=
    if mask.length = 16 ∧ ip.length = 4 ∧ (mask.take 12).all (· == 0xff) then mask.drop 12
    else mask
  let ip :=
    if mask.length = 4 ∧ ip.length = 16 ∧ ip.take 12 = v4InV6Prefix then ip.drop 12 else ip
  if ip.length ≠ mask.length then [] else List.zipWith (· &&& ·) ip mask

def networkNumberAndMask (n : IPNet) : IP × IPMask :=
  let ip4 := n.ip.to4
  if ip4 = [] ∧ n.ip.length ≠ 16 then ([], [])
  else
    let ip := if ip4 = [] then n.ip else ip4
    if n.mask.length = 4 then
      if ip.length ≠ 4 then ([], []) else (ip, n.mask)
    else if n.mask.length = 16 then
      if ip.length = 4 then (ip, n.mask.drop 12) else (ip, n.mask)
    else ([], [])

def IP.containsForm (ip : IP) : IP := if ip.to4 ≠ [] then ip.to4 else ip

/-- `IPNet.Contains`. -/
def IPNet.contains (n : IPNet) (ip : IP) : Bool :=
  let nn := (networkNumberAndMask n).1
  let m := (networkNumberAndMask n).2
  let ip := ip.containsForm
  ip.length == nn.length &&
    (List.range ip.length).all fun i => (nn.getD i 0 &&& m.getD i 0) == (ip.getD i 0 &&& m.getD i 0)

def ipNet2Subnet (n : IPNet) : IPNet := ⟨n.ip.mask n.mask, n.mask⟩

theorem IP.to4_eq_nil_or {ip : IP} : ip.to4 = [] ∨ ip.to4.length = 4 := by
  unfold IP.to4
  split_ifs with four mapped
  · exact .inr four
  · exact .inr (by rw [List.length_drop, mapped.1])
  · exact .inl rfl

theorem IP.length_of_to4_ne_nil {ip : IP} (v4 : ip.to4 ≠ []) :
    (ip.length = 4 ∨ ip.length = 16) ∧ ip.to4 = ip.drop (ip.length - 4) := by
  unfold IP.to4 at v4 ⊢
  split_ifs at v4 ⊢ with four mapped
  · exact ⟨.inl four, by rw [four]; rfl⟩
  · exact ⟨.inr mapped.1, by rw [mapped.1]⟩
  · exact absurd rfl v4

theorem ipToInt_cases {ip : IP} {x bits : Nat} (read : ipToInt ip = some (x, bits)) :
    (bits = 32 ∧ ip.to4 ≠ [] ∧ x = ofBytes ip.to4) ∨
      (bits = 128 ∧ ip.to4 = [] ∧ ip.length = 16 ∧ x = ofBytes ip) := by
  unfold ipToInt at read
  split_ifs at read with v4 v6
  · cases read
    have nonempty : ip.to4 ≠ [] := by simpa [isIPv4] using v4.1
    exact .inl ⟨rfl, nonempty, by rw [(IP.length_of_to4_ne_nil nonempty).2]⟩
  · cases read
    have notV4 : ip.to4 = [] := by
      by_contra nonempty
      have lengths := (IP.length_of_to4_ne_nil nonempty).1
      exact v4 ⟨by simpa [isIPv4] using nonempty, by omega⟩
    have sixteen : ip.length = 16 := by
      have nonempty : ip.to16 ≠ [] := by simpa [isIPv6] using v6.1
      have long := v6.2
      unfold IP.to16 at nonempty
      split_ifs at nonempty with four sixteen
      · omega
      · exact sixteen
      · exact absurd rfl nonempty
    exact .inr ⟨rfl, notV4, sixteen, by rw [sixteen]; rfl⟩

theorem IP.to4_ne_nil_iff {ip : IP} (len : ip.length = 16) :
    ip.to4 ≠ [] ↔ ip.take 12 = v4InV6Prefix := by
  match ip, len with
  | [a0, a1, a2, a3, a4, a5, a6, a7, a8, a9, a10, a11, a12, a13, a14, a15], _ =>
    simp [IP.to4, v4InV6Prefix]

theorem IP.containsForm_of_to4 {ip : IP} (v4 : ip.to4 ≠ []) : ip.containsForm = ip.to4 := by
  rw [IP.containsForm, if_pos v4]

theorem IP.containsForm_of_not_to4 {ip : IP} (v6 : ip.to4 = []) : ip.containsForm = ip := by
  rw [IP.containsForm, if_neg (not_not.mpr v6)]

theorem ipToInt_containsForm {ip : IP} {x bits : Nat} (read : ipToInt ip = some (x, bits)) :
    (bits = 32 ∨ bits = 128) ∧ ip.containsForm.length = bits / 8 ∧ ofBytes ip.containsForm = x := by
  rcases ipToInt_cases read with ⟨rfl, v4, rfl⟩ | ⟨rfl, v6, sixteen, rfl⟩
  · rw [IP.containsForm_of_to4 v4]
    exact ⟨.inl rfl, IP.to4_eq_nil_or.resolve_left v4, rfl⟩
  · rw [IP.containsForm_of_not_to4 v6]
    exact ⟨.inr rfl, sixteen, rfl⟩

theorem ipToInt_lt {ip : IP} {x bits : Nat} (read : ipToInt ip = some (x, bits)) : x < 2 ^ bits := by
  obtain ⟨family, len, rfl⟩ := ipToInt_containsForm read
  have bound := ofBytes_lt ip.containsForm
  rwa [len, show 8 * (bits / 8) = bits by omega] at bound

theorem intToIPStep_pack {bs : List UInt8} {len j : Nat} (fits : bs.length ≤ len)
    (lt : j < bs.length) :
    intToIPStep bs (List.replicate (len - j) 0 ++ bs.drop (bs.length - j)) (j + 1) =
      .ok (List.replicate (len - (j + 1)) 0 ++ bs.drop (bs.length - (j + 1))) := by
  have width : (List.replicate (len - j) (0 : UInt8) ++ bs.drop (bs.length - j)).length = len := by
    simp only [List.length_append, List.length_replicate, List.length_drop]
    omega
  have room : len - j = len - (j + 1) + 1 := by omega
  have next : bs.drop (bs.length - (j + 1)) =
      bs.getD (bs.length - (j + 1)) 0 :: bs.drop (bs.length - j) := by
    rw [List.drop_eq_getElem_cons (by omega), List.getD_eq_getElem _ _ (by omega)]
    congr 2
    omega
  unfold intToIPStep
  rw [width, if_neg (by omega), room, List.replicate_succ', List.append_assoc,
    List.set_append_right _ _ (by simp), List.length_replicate, Nat.sub_self,
    List.singleton_append, List.set_cons_zero, next]

theorem intToIP_loop {bs : List UInt8} {len : Nat} (fits : bs.length ≤ len) :
    ∀ j ≤ bs.length, (List.range' 1 j).foldlM (intToIPStep bs) (List.replicate len 0) =
      .ok (List.replicate (len - j) 0 ++ bs.drop (bs.length - j))
  | 0, _ => by simp; rfl
  | j + 1, le => by
    rw [List.range'_concat, List.foldlM_append, intToIP_loop fits j (by omega)]
    show (List.foldlM (intToIPStep bs) _ [1 + 1 * j]) = _
    simp only [List.foldlM_cons, List.foldlM_nil, bind_pure]
    rw [show 1 + 1 * j = j + 1 by omega, intToIPStep_pack fits (by omega)]

theorem intToIP_eq {n bits : Nat} (fits : (toBytes n).length ≤ bits / 8) :
    intToIP n bits = .ok (List.replicate (bits / 8 - (toBytes n).length) 0 ++ toBytes n) := by
  unfold intToIP
  rw [intToIP_loop fits _ le_rfl, Nat.sub_self, List.drop_zero]

theorem intToIP_of_lt {n bits : Nat} (lt : n < 2 ^ (8 * (bits / 8))) :
    ∃ ip, intToIP n bits = .ok ip ∧ ip.length = bits / 8 ∧ ofBytes ip = n := by
  have fits := length_toBytes_le lt
  refine ⟨_, intToIP_eq fits, ?_, ?_⟩
  · rw [List.length_append, List.length_replicate]
    omega
  · rw [ofBytes_replicate_zero_append, ofBytes_toBytes]

/-! ### Masks -/

theorem length_cidrMaskBytes (n l : Nat) : (cidrMaskBytes n l).length = l := by
  induction l generalizing n with
  | zero => rfl
  | succ l ih =>
    unfold cidrMaskBytes
    split_ifs <;> simp [ih]

theorem toNat_partialByte {n : Nat} (lt : n < 8) :
    (~~~((0xff : UInt8) >>> n.toUInt8)).toNat = 2 ^ 8 - 2 ^ (8 - n) := by
  interval_cases n <;> rfl

theorem ofBytes_cidrMaskBytes {n l : Nat} (le : n ≤ 8 * l) :
    ofBytes (cidrMaskBytes n l) = 2 ^ (8 * l) - 2 ^ (8 * l - n) := by
  induction l generalizing n with
  | zero =>
    obtain rfl : n = 0 := by omega
    rfl
  | succ l ih =>
    unfold cidrMaskBytes
    have whole : 2 ^ (8 * (l + 1)) = 2 ^ 8 * 2 ^ (8 * l) := by
      rw [← pow_add]
      congr 1
      omega
    split_ifs with full
    · -- a whole byte of ones, then `n - 8` more
      have tail : 2 ^ (8 * l - (n - 8)) ≤ 2 ^ (8 * l) := Nat.pow_le_pow_right (by norm_num) (by omega)
      rw [ofBytes_cons, length_cidrMaskBytes, ih (by omega),
        show 8 * (l + 1) - n = 8 * l - (n - 8) by omega, whole]
      simp only [UInt8.reduceToNat]
      omega
    · -- the last ones, in this byte; the rest is zero
      have rest : ofBytes (cidrMaskBytes 0 l) = 0 := by
        rw [ih (Nat.zero_le _), Nat.sub_zero, Nat.sub_self]
      have split : 2 ^ (8 * (l + 1) - n) = 2 ^ (8 - n) * 2 ^ (8 * l) := by
        rw [← pow_add]
        congr 1
        omega
      rw [ofBytes_cons, length_cidrMaskBytes, rest, toNat_partialByte (by omega), whole, split,
        Nat.add_zero, Nat.mul_sub, Nat.mul_comm (2 ^ (8 * l)) (2 ^ 8),
        Nat.mul_comm (2 ^ (8 * l)) (2 ^ (8 - n))]

theorem cidrMask_eq {ones bits : Nat} (family : bits = 32 ∨ bits = 128) (le : ones ≤ bits) :
    cidrMask ones bits = cidrMaskBytes ones (bits / 8) := by
  unfold cidrMask
  rw [if_neg (by omega), if_neg (by omega)]
  congr

theorem length_cidrMask {ones bits : Nat} (family : bits = 32 ∨ bits = 128) (le : ones ≤ bits) :
    (cidrMask ones bits).length = bits / 8 := by
  rw [cidrMask_eq family le, length_cidrMaskBytes]

theorem ofBytes_cidrMask {ones bits : Nat} (family : bits = 32 ∨ bits = 128) (le : ones ≤ bits) :
    ofBytes (cidrMask ones bits) = 2 ^ bits - 2 ^ (bits - ones) := by
  rw [cidrMask_eq family le, ofBytes_cidrMaskBytes (by omega)]
  congr 2 <;> omega

theorem IP.mask_of_length_eq {ip : IP} {mask : IPMask} (len : ip.length = mask.length) :
    ip.mask mask = List.zipWith (· &&& ·) ip mask := by
  have keepMask : ¬(mask.length = 16 ∧ ip.length = 4 ∧ (mask.take 12).all (· == 0xff) = true) :=
    fun shorter => by have := shorter.1; have := shorter.2.1; omega
  have keepIp : ¬(mask.length = 4 ∧ ip.length = 16 ∧ ip.take 12 = v4InV6Prefix) :=
    fun longer => by have := longer.1; have := longer.2.1; omega
  unfold IP.mask
  dsimp only
  rw [if_neg keepMask, if_neg keepIp, if_neg (not_not.mpr len)]

theorem IP.mask_zipWith_and {ip : IP} {mask : IPMask} (len : ip.length = mask.length) :
    IP.mask (List.zipWith (· &&& ·) ip mask) mask = List.zipWith (· &&& ·) ip mask := by
  have zipped : (List.zipWith (· &&& ·) ip mask).length = mask.length := by simp [len]
  rw [IP.mask_of_length_eq zipped]
  apply ofBytes_injective (by simp [len])
  rw [ofBytes_zipWith_and zipped, ofBytes_zipWith_and len, Nat.and_assoc, Nat.and_self]

/-! ### `Contains` -/

theorem networkNumberAndMask_cases (n : IPNet) :
    networkNumberAndMask n = ([], []) ∨
      (n.mask.length = 4 ∧ n.ip.to4 ≠ [] ∧ networkNumberAndMask n = (n.ip.to4, n.mask)) ∨
      (n.mask.length = 16 ∧ n.ip.to4 ≠ [] ∧ networkNumberAndMask n = (n.ip.to4, n.mask.drop 12)) ∨
      (n.mask.length = 16 ∧ n.ip.to4 = [] ∧ n.ip.length = 16 ∧
        networkNumberAndMask n = (n.ip, n.mask)) := by
  have v4 : n.ip.to4 = [] ∨ n.ip.to4.length = 4 := IP.to4_eq_nil_or
  unfold networkNumberAndMask
  dsimp only
  by_cases none : n.ip.to4 = []
  · by_cases sixteen : n.ip.length = 16
    · rw [if_neg (fun h => h.2 sixteen), if_pos none]
      by_cases four : n.mask.length = 4
      · rw [if_pos four, if_pos (by omega)]
        exact .inl rfl
      · rw [if_neg four]
        by_cases long : n.mask.length = 16
        · rw [if_pos long, if_neg (by omega)]
          exact .inr (.inr (.inr ⟨long, none, sixteen, rfl⟩))
        · rw [if_neg long]
          exact .inl rfl
    · rw [if_pos ⟨none, sixteen⟩]
      exact .inl rfl
  · have short : n.ip.to4.length = 4 := v4.resolve_left none
    rw [if_neg (fun h => none h.1), if_neg none]
    by_cases four : n.mask.length = 4
    · rw [if_pos four, if_neg (by omega)]
      exact .inr (.inl ⟨four, none, rfl⟩)
    · rw [if_neg four]
      by_cases long : n.mask.length = 16
      · rw [if_pos long, if_pos short]
        exact .inr (.inr (.inl ⟨long, none, rfl⟩))
      · rw [if_neg long]
        exact .inl rfl

theorem networkNumberAndMask_length (n : IPNet) :
    (networkNumberAndMask n).2.length = (networkNumberAndMask n).1.length := by
  rcases networkNumberAndMask_cases n with nil | ⟨four, v4, eq⟩ | ⟨sixteen, v4, eq⟩ |
      ⟨sixteen, -, long, eq⟩
  · rw [nil]
  · rw [eq]
    dsimp only
    rw [four, IP.to4_eq_nil_or.resolve_left v4]
  · rw [eq]
    dsimp only
    rw [List.length_drop, sixteen, IP.to4_eq_nil_or.resolve_left v4]
  · rw [eq]
    dsimp only
    rw [sixteen, long]

theorem networkNumberAndMask_of_v4 {n : IPNet} (len : n.ip.length = 4) (mlen : n.mask.length = 4) :
    networkNumberAndMask n = (n.ip, n.mask) := by
  have v4 : n.ip.to4 = n.ip := by rw [IP.to4, if_pos len]
  have nonempty : n.ip.to4 ≠ [] := by
    rw [v4]
    intro none
    rw [none] at len
    exact absurd len (by decide)
  unfold networkNumberAndMask
  dsimp only
  rw [if_neg (fun h => nonempty h.1), if_neg nonempty, v4, if_pos mlen, if_neg (not_not.mpr len)]

theorem networkNumberAndMask_of_v6 {n : IPNet} (len : n.ip.length = 16) (v6 : n.ip.to4 = [])
    (mlen : n.mask.length = 16) : networkNumberAndMask n = (n.ip, n.mask) := by
  unfold networkNumberAndMask
  dsimp only
  rw [if_neg (fun h => h.2 len), if_pos v6, if_neg (by omega), if_pos mlen, if_neg (by omega)]

theorem networkNumberAndMask_mask {n : IPNet}
    (len : (networkNumberAndMask n).1.length = n.mask.length) :
    (networkNumberAndMask n).2 = n.mask := by
  rcases networkNumberAndMask_cases n with nil | ⟨-, -, eq⟩ | ⟨sixteen, v4, eq⟩ | ⟨-, -, -, eq⟩
  · rw [nil] at len ⊢
    exact (List.length_eq_zero_iff.mp len.symm).symm
  · rw [eq]
  · rw [eq] at len
    dsimp only at len
    rw [IP.to4_eq_nil_or.resolve_left v4, sixteen] at len
    omega
  · rw [eq]

theorem forall_and_getD_iff {a b m : List UInt8} (ha : a.length = m.length)
    (hb : b.length = m.length) :
    (∀ i < m.length, (a.getD i 0 &&& m.getD i 0) = (b.getD i 0 &&& m.getD i 0)) ↔
      List.zipWith (· &&& ·) a m = List.zipWith (· &&& ·) b m := by
  constructor
  · intro bytes
    apply List.ext_getElem (by simp [ha, hb])
    intro i lt _
    have within : i < m.length := by simpa [ha] using lt
    have := bytes i within
    simp only [List.getElem_zipWith]
    rwa [List.getD_eq_getElem _ _ (by omega), List.getD_eq_getElem _ _ within,
      List.getD_eq_getElem _ _ (by omega)] at this
  · intro same i lt
    have := congrArg (fun l => l.getD i 0) same
    simp only [List.getD_eq_getElem _ _ (by simp [ha, lt] : i < (List.zipWith (· &&& ·) a m).length),
      List.getD_eq_getElem _ _ (by simp [hb, lt] : i < (List.zipWith (· &&& ·) b m).length),
      List.getElem_zipWith] at this
    rwa [List.getD_eq_getElem _ _ (by omega), List.getD_eq_getElem _ _ lt,
      List.getD_eq_getElem _ _ (by omega)]

theorem IPNet.contains_iff {n : IPNet} {ip : IP} :
    n.contains ip = true ↔
      ip.containsForm.length = (networkNumberAndMask n).1.length ∧
        List.zipWith (· &&& ·) (networkNumberAndMask n).1 (networkNumberAndMask n).2 =
          List.zipWith (· &&& ·) ip.containsForm (networkNumberAndMask n).2 := by
  have masked := networkNumberAndMask_length n
  unfold IPNet.contains
  simp only [Bool.and_eq_true, beq_iff_eq, List.all_eq_true, List.mem_range]
  refine and_congr_right fun len => ?_
  rw [← forall_and_getD_iff masked.symm (len.trans masked.symm), masked, len]

theorem IPNet.contains_iff_shiftRight {n : IPNet} {ip : IP} {k : Nat}
    (le : k ≤ 8 * (networkNumberAndMask n).1.length)
    (mask : ofBytes (networkNumberAndMask n).2 =
      2 ^ (8 * (networkNumberAndMask n).1.length) - 2 ^ k) :
    n.contains ip = true ↔
      ip.containsForm.length = (networkNumberAndMask n).1.length ∧
        ofBytes ip.containsForm >>> k = ofBytes (networkNumberAndMask n).1 >>> k := by
  have masked := networkNumberAndMask_length n
  rw [IPNet.contains_iff]
  refine and_congr_right fun len => ?_
  have numbers := ofBytes_lt (networkNumberAndMask n).1
  have address := ofBytes_lt ip.containsForm
  rw [len] at address
  constructor
  · intro same
    have values := congrArg ofBytes same
    rw [ofBytes_zipWith_and masked.symm, ofBytes_zipWith_and (len.trans masked.symm), mask] at values
    exact ((and_mask_eq_iff le numbers address).mp values).symm
  · intro same
    apply ofBytes_injective (by simp [len])
    rw [ofBytes_zipWith_and masked.symm, ofBytes_zipWith_and (len.trans masked.symm), mask]
    exact (and_mask_eq_iff le numbers address).mpr same.symm

end MicroSegment.Share
