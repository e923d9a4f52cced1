import MicroSegment.Share.IpNet
import MicroSegment.Lib.AssocFold
import MicroSegment.Lib.BitPrefix

/-!
# `MergeSubnet` (`share/utils/utils.go`)

The agent and the controller keep the subnets of their workloads and hosts in a map keyed by
`Subnet.String()`, and add each new one with `MergeSubnet`. The call drops the new subnet when a
subnet of the map holds it, deletes the subnets of the map it holds, and stores it. It decides
with `SubnetContains`, which asks whether one network `Contains` the first and last address of
the other (`ipnetToRange`).

For the networks `IPNet2Subnet` makes of IPv4 CIDRs (`Cidr4`), a network holds an aligned block
of values, and `SubnetContains` tells exactly whether one block holds the other
(`subnetContains_cidr4`). `mergeLocalSubnets` then keeps a minimal cover (`SubnetCover`): each
key is the key of its subnet, no subnet of the map holds another, and the map holds exactly the
addresses it held and those of the subnets merged (`mergeLocalSubnets_cover`).

The map is an association list in the order Go's `range` visits it, any order at all. The key
is a parameter: the code's `IPNet.String` writes the network number and prefix length, so it
tells apart the networks of `Cidr4`.
-/

namespace MicroSegment.Share

open BigEndian

def leadingOnes : Nat → UInt8 → Nat × UInt8
  | 0, v => (0, v)
  | fuel + 1, v =>
    if v &&& 0x80 ≠ 0 then
      let r := leadingOnes fuel (v <<< 1)
      (r.1 + 1, r.2)
    else (0, v)

def simpleMaskLength : IPMask → Option Nat
  | [] => some 0
  | v :: rest =>
    if v = 0xff then (simpleMaskLength rest).map (· + 8)
    else
      let counted := leadingOnes 8 v
      if counted.2 ≠ 0 then none
      else if rest.all (· == 0) then some counted.1 else none

/-- `IPMask.Size`: the leading ones and the bit length, `0, 0` for a mask of another form. -/
def ipMaskSize (m : IPMask) : Nat × Nat :=
  match simpleMaskLength m with
  | some ones => (ones, 8 * m.length)
  | none => (0, 0)

/-- `ipnetToRange`: the first and last address of a network. The host length is a `uint`
difference, which wraps when the mask is longer than the address. -/
def ipnetToRange (n : IPNet) : Except Panic (IP × IP) :=
  let size := ipMaskSize n.mask
  if size.1 = size.2 then .ok (n.ip, n.ip)
  else
    match ipToInt n.ip with
    | none => .ok ([], [])
    | some (firstIPInt, bits) =>
      let hostLen := (bits + 2 ^ 64 - size.1) % 2 ^ 64
      (intToIP ((2 ^ hostLen - 1) ||| firstIPInt) bits).map fun lastIP => (n.ip, lastIP)

/-- The answer of `SubnetContains` from whether each network holds the other's ends. -/
def containsAnswer (c12 c21 : Bool) : Bool × Int :=
  if !c12 && !c21 then (false, 0)
  else if c12 && c21 then (true, 0)
  else if c12 then (true, 1)
  else (true, -1)

/-- `SubnetContains`: whether one network holds the other, `1` when `n1` holds `n2`, `-1` the
other way, `0` when each holds the other. -/
def subnetContains (n1 n2 : IPNet) : Except Panic (Bool × Int) := do
  let (l1, r1) ← ipnetToRange n1
  let (l2, r2) ← ipnetToRange n2
  pure (containsAnswer (n1.contains l2 && n1.contains r2) (n2.contains l1 && n2.contains r1))

theorem leadingOnes_partialByte :
    ∀ n, n < 8 → leadingOnes 8 (~~~((0xff : UInt8) >>> n.toUInt8)) = (n, 0) := by
  decide

theorem partialByte_ne :
    ∀ n, n < 8 → ~~~((0xff : UInt8) >>> n.toUInt8) ≠ 0xff := by
  decide

theorem all_cidrMaskBytes_zero (l : Nat) : (cidrMaskBytes 0 l).all (· == 0) = true := by
  induction l with
  | zero => rfl
  | succ l ih =>
    rw [cidrMaskBytes, if_neg (by omega), List.all_cons, ih, Bool.and_true]
    decide

theorem simpleMaskLength_cidrMaskBytes : ∀ (l n : Nat), n ≤ 8 * l →
    simpleMaskLength (cidrMaskBytes n l) = some n
  | 0, n, le => by
    obtain rfl : n = 0 := by omega
    rfl
  | l + 1, n, le => by
    rw [cidrMaskBytes]
    by_cases full : n ≥ 8
    · rw [if_pos full, simpleMaskLength, if_pos rfl,
        simpleMaskLength_cidrMaskBytes l (n - 8) (by omega)]
      simp only [Option.map_some]
      congr 1
      omega
    · -- the last byte with ones holds the rest of them, and the bytes after it are zero
      have short : n < 8 := by omega
      rw [if_neg full, simpleMaskLength, if_neg (partialByte_ne n short)]
      simp only [leadingOnes_partialByte n short, ne_eq, not_true_eq_false, if_false,
        all_cidrMaskBytes_zero, if_true]

theorem ipMaskSize_cidrMask {ones : Nat} (le : ones ≤ 32) : ipMaskSize (cidrMask ones 32) = (ones, 32) := by
  have bytes : cidrMask ones 32 = cidrMaskBytes ones 4 := cidrMask_eq (Or.inl rfl) le
  simp only [ipMaskSize, bytes, simpleMaskLength_cidrMaskBytes 4 ones le, length_cidrMaskBytes]

/-! ### IPv4 CIDR networks -/

/-- An IPv4 network as `IPNet2Subnet` makes it of a parsed CIDR: a 4-byte number, masked, under
a 4-byte `CIDRMask`. -/
structure Cidr4 (n : IPNet) : Prop where
  len : n.ip.length = 4
  cidr : ∃ ones : Nat, ones ≤ 32 ∧ n.mask = cidrMask ones 32
  masked : n.ip.mask n.mask = n.ip

def IPNet.hostBits (n : IPNet) : Nat := 32 - (ipMaskSize n.mask).1

theorem IPNet.hostBits_le (n : IPNet) : n.hostBits ≤ 32 := Nat.sub_le _ _

/-- Every address that `n` holds, `m` holds. -/
def IPNet.Holds (m n : IPNet) : Prop := ∀ ip, n.contains ip = true → m.contains ip = true

theorem IPNet.Holds.refl (n : IPNet) : n.Holds n := fun _ held => held

theorem IPNet.Holds.trans {a b c : IPNet} (ab : a.Holds b) (bc : b.Holds c) : a.Holds c :=
  fun ip held => ab ip (bc ip held)

theorem IP.containsForm_of_length_four {ip : IP} (len : ip.length = 4) : ip.containsForm = ip := by
  have v4 : ip.to4 = ip := by rw [IP.to4, if_pos len]
  have nonempty : ip ≠ [] := fun none => by simp [none] at len
  rw [IP.containsForm, v4, if_pos nonempty]

theorem ipToInt_of_length_four {ip : IP} (len : ip.length = 4) : ipToInt ip = some (ofBytes ip, 32) := by
  have v4 : ip.to4 = ip := by rw [IP.to4, if_pos len]
  have nonempty : ip ≠ [] := fun none => by simp [none] at len
  unfold ipToInt isIPv4
  rw [v4, if_pos ⟨by simpa using nonempty, by omega⟩, len]
  rfl

namespace Cidr4

variable {n : IPNet} (cidr : Cidr4 n)
include cidr

theorem mask_eq : n.mask = cidrMask (32 - n.hostBits : Nat) 32 := by
  obtain ⟨ones, le, mask⟩ := cidr.cidr
  have size := ipMaskSize_cidrMask le
  rw [← mask] at size
  rw [IPNet.hostBits, size, show 32 - (32 - ones) = ones by omega]
  exact mask

theorem length_mask : n.mask.length = 4 := by
  rw [cidr.mask_eq]
  exact length_cidrMask (Or.inl rfl) (Nat.sub_le _ _)

theorem networkNumberAndMask_eq : networkNumberAndMask n = (n.ip, n.mask) :=
  networkNumberAndMask_of_v4 cidr.len cidr.length_mask

theorem ofBytes_mask : ofBytes n.mask = 2 ^ 32 - 2 ^ n.hostBits := by
  have value : ofBytes (cidrMask (32 - n.hostBits : Nat) 32) =
      2 ^ 32 - 2 ^ (32 - (32 - n.hostBits)) := ofBytes_cidrMask (Or.inl rfl) (Nat.sub_le _ _)
  rw [cidr.mask_eq, value, show 32 - (32 - n.hostBits) = n.hostBits by have := n.hostBits_le; omega]

theorem aligned : ofBytes n.ip % 2 ^ n.hostBits = 0 := by
  have masked := cidr.masked
  rw [IP.mask_of_length_eq (cidr.len.trans cidr.length_mask.symm)] at masked
  have value := congrArg ofBytes masked
  have top : ofBytes n.ip < 2 ^ 32 := by
    have := ofBytes_lt n.ip
    rwa [cidr.len] at this
  rw [ofBytes_zipWith_and (cidr.len.trans cidr.length_mask.symm), cidr.ofBytes_mask,
    and_two_pow_sub_two_pow n.hostBits_le top] at value
  rw [← value, Nat.shiftLeft_eq, Nat.mul_mod_left]

theorem contains_iff {ip : IP} :
    n.contains ip = true ↔ ip.containsForm.length = 4 ∧
      ofBytes ip.containsForm >>> n.hostBits = ofBytes n.ip >>> n.hostBits := by
  have width : 8 * (networkNumberAndMask n).1.length = 32 := by
    rw [cidr.networkNumberAndMask_eq, cidr.len]
  rw [IPNet.contains_iff_shiftRight (k := n.hostBits) (by rw [width]; exact n.hostBits_le)
    (by rw [width, cidr.networkNumberAndMask_eq]; exact cidr.ofBytes_mask),
    cidr.networkNumberAndMask_eq, cidr.len]

theorem contains_of_value {ip : IP} (len : ip.length = 4)
    (same : ofBytes ip >>> n.hostBits = ofBytes n.ip >>> n.hostBits) : n.contains ip = true := by
  rw [cidr.contains_iff, IP.containsForm_of_length_four len]
  exact ⟨len, same⟩

theorem ipnetToRange_eq : ∃ last, ipnetToRange n = .ok (n.ip, last) ∧ last.length = 4 ∧
    ofBytes last = ofBytes n.ip + (2 ^ n.hostBits - 1) := by
  have le := n.hostBits_le
  have size : ipMaskSize n.mask = (32 - n.hostBits, 32) := by
    rw [cidr.mask_eq]
    exact ipMaskSize_cidrMask (Nat.sub_le _ _)
  unfold ipnetToRange
  dsimp only
  rw [size]
  by_cases whole : n.hostBits = 0
  · -- a single address: its own last one
    rw [if_pos (by simp only; omega)]
    exact ⟨n.ip, rfl, cidr.len, by rw [whole]; rfl⟩
  · rw [if_neg (by simp only; omega), ipToInt_of_length_four cidr.len]
    dsimp only
    have hostLen : (32 + 2 ^ 64 - (32 - n.hostBits)) % 2 ^ 64 = n.hostBits := by omega
    have last : (2 ^ n.hostBits - 1) ||| ofBytes n.ip = ofBytes n.ip + (2 ^ n.hostBits - 1) := by
      rw [Nat.or_comm, BitPrefix.or_low_eq_add cidr.aligned]
    -- the block ends below `2 ^ 32`, as its number does
    have below : ofBytes n.ip + (2 ^ n.hostBits - 1) < 2 ^ (8 * (32 / 8)) := by
      have top : ofBytes n.ip < 2 ^ 32 := by
        have := ofBytes_lt n.ip
        rwa [cidr.len] at this
      have high := BitPrefix.shiftRight_last cidr.aligned
      have small : ofBytes n.ip >>> n.hostBits < 2 ^ (32 - n.hostBits) := by
        rw [Nat.shiftRight_eq_div_pow, Nat.div_lt_iff_lt_mul (Nat.two_pow_pos _), ← Nat.pow_add,
          Nat.sub_add_cancel le]
        exact top
      rw [← high, Nat.shiftRight_eq_div_pow, Nat.div_lt_iff_lt_mul (Nat.two_pow_pos _),
        ← Nat.pow_add, Nat.sub_add_cancel le] at small
      exact small
    obtain ⟨lastIP, written, len, val⟩ := intToIP_of_lt below
    rw [hostLen, last, written]
    exact ⟨lastIP, rfl, len, val⟩

theorem contains_self : n.contains n.ip = true := cidr.contains_of_value cidr.len rfl

theorem contains_last {last : IP} (len : last.length = 4)
    (value : ofBytes last = ofBytes n.ip + (2 ^ n.hostBits - 1)) : n.contains last = true :=
  cidr.contains_of_value len (by rw [value]; exact BitPrefix.shiftRight_last cidr.aligned)

theorem bounds_of_contains {ip : IP} (len : ip.length = 4) (held : n.contains ip = true) :
    ofBytes n.ip ≤ ofBytes ip ∧ ofBytes ip ≤ ofBytes n.ip + (2 ^ n.hostBits - 1) := by
  rw [cidr.contains_iff, IP.containsForm_of_length_four len] at held
  exact BitPrefix.bounds_of_shiftRight_eq cidr.aligned held.2

end Cidr4

/-- `m` holds `n` and an address more. -/
def IPNet.StrictlyHolds (m n : IPNet) : Prop := m.Holds n ∧ ¬ n.Holds m

theorem containsAnswer_holder {c12 c21 : Bool} {a b : IPNet} (held : c12 = true ↔ a.Holds b)
    (holds : c21 = true ↔ b.Holds a) : (c12 && !c21) = true ↔ a.StrictlyHolds b := by
  rw [IPNet.StrictlyHolds, ← held, ← holds]
  cases c12 <;> cases c21 <;> decide

section Pair

variable {a b : IPNet} (ca : Cidr4 a) (cb : Cidr4 b)
include ca cb

theorem holds_iff_ends {last : IP} (len : last.length = 4)
    (value : ofBytes last = ofBytes b.ip + (2 ^ b.hostBits - 1)) :
    (a.contains b.ip && a.contains last) = true ↔ a.Holds b := by
  rw [Bool.and_eq_true]
  constructor
  · rintro ⟨first, final⟩ ip held
    rw [ca.contains_iff, IP.containsForm_of_length_four cb.len] at first
    rw [ca.contains_iff, IP.containsForm_of_length_four len, value] at final
    rw [cb.contains_iff] at held
    rw [ca.contains_iff]
    exact ⟨held.1, BitPrefix.shiftRight_eq_of_ends cb.aligned first.2 final.2 held.2⟩
  · intro holds
    exact ⟨holds _ cb.contains_self, holds _ (cb.contains_last len value)⟩

/-- On IPv4 CIDR networks `SubnetContains` answers from whether each network holds the other. -/
theorem subnetContains_cidr4 : ∃ c12 c21, subnetContains a b = .ok (containsAnswer c12 c21) ∧
    (c12 = true ↔ a.Holds b) ∧ (c21 = true ↔ b.Holds a) := by
  obtain ⟨la, rangeA, lenA, valueA⟩ := ca.ipnetToRange_eq
  obtain ⟨lb, rangeB, lenB, valueB⟩ := cb.ipnetToRange_eq
  refine ⟨_, _, ?_, holds_iff_ends ca cb lenB valueB, holds_iff_ends cb ca lenA valueA⟩
  rw [subnetContains, rangeA, rangeB]
  rfl

theorem eq_of_holds (ab : a.Holds b) (ba : b.Holds a) : a = b := by
  obtain ⟨la, -, lenA, valueA⟩ := ca.ipnetToRange_eq
  obtain ⟨lb, -, lenB, valueB⟩ := cb.ipnetToRange_eq
  -- each block lies in the other, so both start and end at the same values
  have firstB := ca.bounds_of_contains cb.len (ab _ cb.contains_self)
  have firstA := cb.bounds_of_contains ca.len (ba _ ca.contains_self)
  have lastB := ca.bounds_of_contains lenB (ab _ (cb.contains_last lenB valueB))
  have lastA := cb.bounds_of_contains lenA (ba _ (ca.contains_last lenA valueA))
  rw [valueB] at lastB
  rw [valueA] at lastA
  have start : ofBytes a.ip = ofBytes b.ip := by omega
  have size : 2 ^ a.hostBits = 2 ^ b.hostBits := by
    have := Nat.two_pow_pos a.hostBits
    have := Nat.two_pow_pos b.hostBits
    omega
  have bits : a.hostBits = b.hostBits := Nat.pow_right_injective (le_refl 2) size
  have ip : a.ip = b.ip := ofBytes_injective (ca.len.trans cb.len.symm) start
  have mask : a.mask = b.mask := by rw [ca.mask_eq, cb.mask_eq, bits]
  cases a
  cases b
  rw [IPNet.mk.injEq]
  exact ⟨ip, mask⟩

end Pair

/-! ### `MergeSubnet` -/

/-- `share.CLUSSubnet`. -/
structure CLUSSubnet where
  subnet : IPNet
  scope : String
  deriving DecidableEq, Repr

section Cover

variable {K : Type}

/-- The maps `MergeSubnet` keeps: each entry under its subnet's key, the keys distinct, the
subnets IPv4 CIDRs, and none of them holding another. -/
structure SubnetCover (key : IPNet → K) (m : List (K × CLUSSubnet)) : Prop where
  nodup : (m.map Prod.fst).Nodup
  keyed : ∀ e ∈ m, e.1 = key e.2.subnet
  cidr : ∀ e ∈ m, Cidr4 e.2.subnet
  antichain : ∀ e ∈ m, ∀ e' ∈ m, e.2.subnet.Holds e'.2.subnet → e = e'

def subnetsContain (m : List (K × CLUSSubnet)) (ip : IP) : Bool :=
  m.any fun e => e.2.subnet.contains ip

/-- The key tells IPv4 CIDR networks apart, as `IPNet.String` does. -/
def TellsCidr4Apart (key : IPNet → K) : Prop :=
  ∀ a b, Cidr4 a → Cidr4 b → key a = key b → a = b

theorem subnetCover_nil (key : IPNet → K) : SubnetCover key [] :=
  ⟨List.nodup_nil, by simp, by simp, by simp⟩

theorem subnetCover_singleton (key : IPNet → K) {s : CLUSSubnet} (cidr : Cidr4 s.subnet) :
    SubnetCover key [(key s.subnet, s)] :=
  ⟨List.nodup_singleton _, by simp, by simpa using cidr, by simp⟩

namespace SubnetCover

variable {key : IPNet → K} {m : List (K × CLUSSubnet)} (inv : SubnetCover key m)
include inv

theorem eq_of_key {e e' : K × CLUSSubnet} (mem : e ∈ m) (mem' : e' ∈ m) (same : e.1 = e'.1) :
    e = e' :=
  List.inj_on_of_nodup_map inv.nodup mem mem' same

theorem sublist {m' : List (K × CLUSSubnet)} (sub : m'.Sublist m) : SubnetCover key m' where
  nodup := List.Nodup.sublist (sub.map Prod.fst) inv.nodup
  keyed e mem := inv.keyed e (sub.subset mem)
  cidr e mem := inv.cidr e (sub.subset mem)
  antichain e mem e' mem' := inv.antichain e (sub.subset mem) e' (sub.subset mem')

end SubnetCover

end Cover

section Merge

variable {K : Type} [DecidableEq K]

/-- The loop of `MergeSubnet` over the entries in the order `range` visits them, deleting from
`subnets` as it goes; it stops with `false` at an entry that holds `snet` and more. -/
def mergeSubnetLoop (snet : CLUSSubnet) :
    List (K × CLUSSubnet) → List (K × CLUSSubnet) → Except Panic (List (K × CLUSSubnet) × Bool)
  | [], subnets => .ok (subnets, true)
  | (key, sn) :: rest, subnets => do
    let (inc, v) ← subnetContains sn.subnet snet.subnet
    if inc then
      if v = 1 then return (subnets, false)
      else if v = -1 then mergeSubnetLoop snet rest (subnets.filter fun e => e.1 ≠ key)
      else mergeSubnetLoop snet rest subnets
    else mergeSubnetLoop snet rest subnets

/-- `MergeSubnet`, with `key` for the map's key `Subnet.String()`. -/
def mergeSubnet (key : IPNet → K) (subnets : List (K × CLUSSubnet)) (snet : CLUSSubnet) :
    Except Panic (List (K × CLUSSubnet) × Bool) := do
  let (subnets, added) ← mergeSubnetLoop snet subnets subnets
  if added then return (AssocFold.upsert (fun _ new => new) subnets (key snet.subnet) snet, true)
  else return (subnets, false)

/-- `mergeLocalSubnets` (`agent/system.go`): merge the local subnets, in the order `range`
visits them, into a map; `changed` is whether any merge answered `true`. -/
def mergeLocalSubnets (key : IPNet → K) :
    List CLUSSubnet → List (K × CLUSSubnet) → Except Panic (List (K × CLUSSubnet) × Bool)
  | [], subnetMap => .ok (subnetMap, false)
  | subnet :: rest, subnetMap => do
    let (subnetMap, added) ← mergeSubnet key subnetMap subnet
    let (subnetMap, changed) ← mergeLocalSubnets key rest subnetMap
    return (subnetMap, added || changed)

section Loop

variable (snet : CLUSSubnet)

theorem mergeSubnetLoop_cons {k : K} {sn : CLUSSubnet} {rest subnets : List (K × CLUSSubnet)}
    {c12 c21 : Bool} (answer : subnetContains sn.subnet snet.subnet = .ok (containsAnswer c12 c21)) :
    mergeSubnetLoop snet ((k, sn) :: rest) subnets =
      if (c12 && !c21) = true then .ok (subnets, false)
      else mergeSubnetLoop snet rest
        (if (c21 && !c12) = true then subnets.filter (fun e => e.1 ≠ k) else subnets) := by
  rw [mergeSubnetLoop, answer]
  cases c12 <;> cases c21 <;> rfl

variable {snet} (cidr : Cidr4 snet.subnet)
include cidr

theorem mergeSubnetLoop_of_no_holder : ∀ (rest subnets : List (K × CLUSSubnet)),
    (∀ r ∈ rest, Cidr4 r.2.subnet) → (∀ r ∈ rest, ¬ r.2.subnet.StrictlyHolds snet.subnet) →
    ∃ kept, mergeSubnetLoop snet rest subnets = .ok (kept, true) ∧ kept.Sublist subnets ∧
      ∀ e, e ∈ kept ↔ e ∈ subnets ∧
        ∀ r ∈ rest, r.1 = e.1 → ¬ snet.subnet.StrictlyHolds r.2.subnet
  | [], subnets, _, _ => ⟨subnets, rfl, List.Sublist.refl _, by simp⟩
  | (k, sn) :: rest, subnets, cidrs, noHolder => by
    simp only [List.forall_mem_cons] at cidrs noHolder ⊢
    obtain ⟨c12, c21, answer, held, holds⟩ := subnetContains_cidr4 cidrs.1 cidr
    have inner := containsAnswer_holder held holds
    have outer := containsAnswer_holder holds held
    rw [mergeSubnetLoop_cons snet answer, if_neg (inner.not.mpr noHolder.1)]
    obtain ⟨kept, loop, sub, mem⟩ := mergeSubnetLoop_of_no_holder rest _ cidrs.2 noHolder.2
    refine ⟨kept, loop, sub.trans ?_, fun e => ?_⟩
    · split
      · exact List.filter_sublist
      · exact List.Sublist.refl _
    · rw [mem, ← outer]
      by_cases deleted : (c21 && !c12) = true
      · rw [if_pos deleted]
        simp only [deleted, List.mem_filter, decide_eq_true_eq, not_true_eq_false, imp_false,
          and_assoc, eq_comm (a := k), ne_eq]
      · rw [if_neg deleted]
        simp only [deleted, Bool.false_eq_true, not_false_eq_true, implies_true, true_and]

theorem mergeSubnetLoop_of_holder : ∀ (rest subnets : List (K × CLUSSubnet)),
    (∀ r ∈ rest, Cidr4 r.2.subnet) → (∀ r ∈ rest, ¬ snet.subnet.StrictlyHolds r.2.subnet) →
    (∃ r ∈ rest, r.2.subnet.StrictlyHolds snet.subnet) →
    mergeSubnetLoop snet rest subnets = .ok (subnets, false)
  | [], _, _, _, holder => by simp at holder
  | (k, sn) :: rest, subnets, cidrs, noHeld, holder => by
    simp only [List.forall_mem_cons] at cidrs noHeld
    obtain ⟨c12, c21, answer, held, holds⟩ := subnetContains_cidr4 cidrs.1 cidr
    rw [mergeSubnetLoop_cons snet answer]
    by_cases first : (c12 && !c21) = true
    · rw [if_pos first]
    · -- the holder comes later, and this entry is not deleted
      have later : ∃ r ∈ rest, r.2.subnet.StrictlyHolds snet.subnet := by
        obtain ⟨r, mem, strict⟩ := holder
        rcases List.mem_cons.mp mem with rfl | later
        · exact absurd ((containsAnswer_holder held holds).mpr strict) first
        · exact ⟨r, later, strict⟩
      rw [if_neg first, if_neg ((containsAnswer_holder holds held).not.mpr noHeld.1)]
      exact mergeSubnetLoop_of_holder rest subnets cidrs.2 noHeld.2 later

end Loop

/-! ### One merge -/

section Step

variable {key : IPNet → K} {m : List (K × CLUSSubnet)} (inv : SubnetCover key m)
  {snet : CLUSSubnet} (cidr : Cidr4 snet.subnet)
include inv cidr

theorem mergeSubnet_of_holder (holder : ∃ e ∈ m, e.2.subnet.StrictlyHolds snet.subnet) :
    mergeSubnet key m snet = .ok (m, false) := by
  -- in an antichain no entry lies inside `snet` when another holds it
  have noHeld : ∀ r ∈ m, ¬ snet.subnet.StrictlyHolds r.2.subnet := by
    rintro r mem ⟨holds, notBack⟩
    obtain ⟨e, mem', outer, -⟩ := holder
    obtain rfl := inv.antichain e mem' r mem (outer.trans holds)
    exact notBack outer
  rw [mergeSubnet, mergeSubnetLoop_of_holder cidr m m inv.cidr noHeld holder]
  rfl

theorem mergeSubnet_of_no_holder (noHolder : ∀ e ∈ m, ¬ e.2.subnet.StrictlyHolds snet.subnet) :
    ∃ kept, mergeSubnet key m snet =
        .ok (AssocFold.upsert (fun _ new => new) kept (key snet.subnet) snet, true) ∧
      kept.Sublist m ∧ ∀ e, e ∈ kept ↔ e ∈ m ∧ ¬ snet.subnet.StrictlyHolds e.2.subnet := by
  obtain ⟨kept, loop, sub, mem⟩ := mergeSubnetLoop_of_no_holder cidr m m inv.cidr noHolder
  refine ⟨kept, by rw [mergeSubnet, loop]; rfl, sub, fun e => ?_⟩
  rw [mem]
  -- the only entry under `e`'s key is `e`
  constructor
  · rintro ⟨mem, kept⟩
    exact ⟨mem, kept e mem rfl⟩
  · rintro ⟨mem, notHeld⟩
    refine ⟨mem, fun r mem' same => ?_⟩
    rwa [inv.eq_of_key mem' mem same]

section Store

variable {kept : List (K × CLUSSubnet)} (sub : kept.Sublist m)
  (mem : ∀ e, e ∈ kept ↔ e ∈ m ∧ ¬ snet.subnet.StrictlyHolds e.2.subnet)
  (noHolder : ∀ e ∈ m, ¬ e.2.subnet.StrictlyHolds snet.subnet)
include sub mem noHolder

theorem subnetCover_store :
    SubnetCover key (AssocFold.upsert (fun _ new => new) kept (key snet.subnet) snet) := by
  have inv' := inv.sublist sub
  -- an entry kept that holds `snet` or that `snet` holds is `snet`, under `snet`'s key
  have sameKey : ∀ e ∈ kept, e.2.subnet.Holds snet.subnet → snet.subnet.Holds e.2.subnet →
      e.1 = key snet.subnet := fun e mem held holds => by
    rw [inv'.keyed e mem, eq_of_holds (inv'.cidr e mem) cidr held holds]
  have stored := fun e => AssocFold.mem_upsert_new_iff inv'.nodup (key snet.subnet) snet (e := e)
  refine ⟨AssocFold.nodup_upsert _ inv'.nodup _ _, ?_, ?_, ?_⟩
  · intro e mem'
    rcases (stored e).mp mem' with rfl | ⟨old, -⟩
    · rfl
    · exact inv'.keyed e old
  · intro e mem'
    rcases (stored e).mp mem' with rfl | ⟨old, -⟩
    · exact cidr
    · exact inv'.cidr e old
  · intro e mem₁ e' mem₂ holds
    rcases (stored e).mp mem₁ with rfl | ⟨old, other⟩ <;>
      rcases (stored e').mp mem₂ with rfl | ⟨old', other'⟩
    · rfl
    · -- `snet` holds a kept entry, which then holds it back
      have back : e'.2.subnet.Holds snet.subnet := by
        by_contra notBack
        exact ((mem e').mp old').2 ⟨holds, notBack⟩
      exact absurd (sameKey e' old' back holds) other'
    · have back : snet.subnet.Holds e.2.subnet := by
        by_contra notBack
        exact noHolder e (sub.subset old) ⟨holds, notBack⟩
      exact absurd (sameKey e old holds back) other
    · exact inv'.antichain e old e' old' holds

omit noHolder in
theorem subnetsContain_store (apart : TellsCidr4Apart key) (ip : IP) :
    subnetsContain (AssocFold.upsert (fun _ new => new) kept (key snet.subnet) snet) ip =
      (subnetsContain m ip || snet.subnet.contains ip) := by
  have nodup := (inv.sublist sub).nodup
  rw [Bool.eq_iff_iff]
  simp only [subnetsContain, Bool.or_eq_true, List.any_eq_true]
  constructor
  · rintro ⟨e, mem', held⟩
    rcases (AssocFold.mem_upsert_new_iff nodup _ _).mp mem' with rfl | ⟨old, -⟩
    · exact Or.inr held
    · exact Or.inl ⟨e, sub.subset old, held⟩
  · have new := (AssocFold.mem_upsert_new_iff nodup (key snet.subnet) snet).mpr (Or.inl rfl)
    rintro (⟨e, old, held⟩ | held)
    · by_cases still : e ∈ kept ∧ e.1 ≠ key snet.subnet
      · exact ⟨e, (AssocFold.mem_upsert_new_iff nodup _ _).mpr (Or.inr still), held⟩
      · -- `e` was deleted, so `snet` holds it; or it was replaced, and is `snet`
        refine ⟨_, new, ?_⟩
        by_cases gone : e ∈ kept
        · have same : key e.2.subnet = key snet.subnet := by
            rw [← inv.keyed e old]
            exact not_not.mp fun other => still ⟨gone, other⟩
          rwa [← apart _ _ (inv.cidr e old) cidr same]
        · have strict : snet.subnet.StrictlyHolds e.2.subnet := by
            by_contra notStrict
            exact gone ((mem e).mpr ⟨old, notStrict⟩)
          exact strict.1 ip held
    · exact ⟨_, new, held⟩

end Store

theorem SubnetCover.merge (apart : TellsCidr4Apart key) :
    ∃ m' added, mergeSubnet key m snet = .ok (m', added) ∧ SubnetCover key m' ∧
      (∀ ip, subnetsContain m' ip = (subnetsContain m ip || snet.subnet.contains ip)) ∧
      (∀ e ∈ m', e ∈ m ∨ e = (key snet.subnet, snet)) ∧
      (added = false ↔ ∃ e ∈ m, e.2.subnet.StrictlyHolds snet.subnet) ∧
      (added = false → m' = m) := by
  by_cases holder : ∃ e ∈ m, e.2.subnet.StrictlyHolds snet.subnet
  · refine ⟨m, false, mergeSubnet_of_holder inv cidr holder, inv, fun ip => ?_,
      fun e mem => Or.inl mem, iff_of_true rfl holder, fun _ => rfl⟩
    -- the holder already holds the addresses of `snet`
    obtain ⟨e, mem, outer, -⟩ := holder
    cases held : snet.subnet.contains ip
    · rw [Bool.or_false]
    · have found : subnetsContain m ip = true := List.any_eq_true.mpr ⟨e, mem, outer ip held⟩
      rw [found, Bool.true_or]
  · have noHolder : ∀ e ∈ m, ¬ e.2.subnet.StrictlyHolds snet.subnet :=
      fun e mem strict => holder ⟨e, mem, strict⟩
    obtain ⟨kept, merged, sub, mem⟩ := mergeSubnet_of_no_holder inv cidr noHolder
    have nodup := (inv.sublist sub).nodup
    refine ⟨_, true, merged, subnetCover_store inv cidr sub mem noHolder,
      subnetsContain_store inv cidr sub mem apart, fun e stored => ?_,
      iff_of_false (by decide) holder, fun never => absurd never (by decide)⟩
    rcases (AssocFold.mem_upsert_new_iff nodup _ _).mp stored with rfl | ⟨old, -⟩
    · exact Or.inr rfl
    · exact Or.inl (sub.subset old)

/-- Merging a subnet the map stores under its key answers `true`, though the map stays as it
was: callers such as `mergeLocalSubnets` then report a change that is none. -/
theorem mergeSubnet_of_mem (stored : (key snet.subnet, snet) ∈ m) :
    mergeSubnet key m snet = .ok (m, true) := by
  -- only `snet` itself holds `snet`, and it does not hold it with more
  have noHolder : ∀ e ∈ m, ¬ e.2.subnet.StrictlyHolds snet.subnet := by
    rintro e mem ⟨holds, notBack⟩
    obtain rfl := inv.antichain e mem _ stored holds
    exact notBack (IPNet.Holds.refl _)
  obtain ⟨kept, merged, sub, mem⟩ := mergeSubnet_of_no_holder inv cidr noHolder
  -- so the loop deletes nothing
  have all : m ⊆ kept := by
    intro e old
    refine (mem e).mpr ⟨old, fun ⟨holds, notBack⟩ => notBack ?_⟩
    obtain rfl := inv.antichain _ stored e old holds
    exact IPNet.Holds.refl _
  have same : kept = m :=
    sub.eq_of_length_le ((List.Nodup.of_map Prod.fst inv.nodup).subperm all).length_le
  rw [merged, same, AssocFold.upsert_of_mem _ inv.nodup stored rfl]

end Step

def subnet10 : IPNet := ⟨[10, 1, 0, 0], [255, 255, 0, 0]⟩

def subnet192 : IPNet := ⟨[192, 168, 3, 0], [255, 255, 255, 0]⟩

theorem mergeSubnet_of_mem_again :
    mergeSubnet id [(subnet10, ⟨subnet10, "local"⟩), (subnet192, ⟨subnet192, "local"⟩)]
        ⟨subnet10, "local"⟩ =
      .ok ([(subnet10, ⟨subnet10, "local"⟩), (subnet192, ⟨subnet192, "local"⟩)], true) := by
  have cidr10 : Cidr4 subnet10 := ⟨rfl, ⟨16, by decide, by decide⟩, by decide⟩
  have cidr192 : Cidr4 subnet192 := ⟨rfl, ⟨24, by decide, by decide⟩, by decide⟩
  have inv : SubnetCover id [(subnet10, ⟨subnet10, "local"⟩), (subnet192, ⟨subnet192, "local"⟩)] := by
    refine ⟨by decide, by simp, ?_, ?_⟩
    · intro e mem
      simp only [List.mem_cons, List.not_mem_nil, or_false] at mem
      rcases mem with rfl | rfl
      · exact cidr10
      · exact cidr192
    · -- neither subnet holds the other's own address
      intro e mem e' mem' holds
      simp only [List.mem_cons, List.not_mem_nil, or_false] at mem mem'
      rcases mem with rfl | rfl <;> rcases mem' with rfl | rfl
      · rfl
      · exact absurd (holds _ cidr192.contains_self) (by decide)
      · exact absurd (holds _ cidr10.contains_self) (by decide)
      · rfl
  exact mergeSubnet_of_mem inv cidr10 List.mem_cons_self

/-- `mergeLocalSubnets` over a map `MergeSubnet` keeps: the map stays one it keeps, holds the
addresses it held and those of the local subnets, and gains no entry but theirs; when no merge
answers `true`, the map is left as it was. -/
theorem mergeLocalSubnets_cover {key : IPNet → K} (apart : TellsCidr4Apart key) :
    ∀ (localSubnets : List CLUSSubnet) (subnetMap : List (K × CLUSSubnet)),
      SubnetCover key subnetMap → (∀ s ∈ localSubnets, Cidr4 s.subnet) →
      ∃ m' changed, mergeLocalSubnets key localSubnets subnetMap = .ok (m', changed) ∧
        SubnetCover key m' ∧
        (∀ ip, subnetsContain m' ip =
          (subnetsContain subnetMap ip || localSubnets.any fun s => s.subnet.contains ip)) ∧
        (∀ e ∈ m', e ∈ subnetMap ∨ ∃ s ∈ localSubnets, e = (key s.subnet, s)) ∧
        (changed = false → m' = subnetMap)
  | [], subnetMap, inv, _ =>
    ⟨subnetMap, false, rfl, inv, fun ip => by simp, fun e mem => Or.inl mem, fun _ => rfl⟩
  | subnet :: rest, subnetMap, inv, cidrs => by
    simp only [List.forall_mem_cons] at cidrs
    obtain ⟨m₁, added, merged, inv₁, contain₁, entries₁, -, kept₁⟩ := inv.merge cidrs.1 apart
    obtain ⟨m₂, changed, run, inv₂, contain₂, entries₂, kept₂⟩ :=
      mergeLocalSubnets_cover apart rest m₁ inv₁ cidrs.2
    have call : mergeLocalSubnets key (subnet :: rest) subnetMap = .ok (m₂, added || changed) := by
      rw [mergeLocalSubnets, merged]
      show (mergeLocalSubnets key rest m₁ >>= fun r => pure (r.1, added || r.2)) = _
      rw [run]
      rfl
    refine ⟨m₂, added || changed, call, inv₂, fun ip => ?_, fun e mem => ?_, fun none => ?_⟩
    · rw [contain₂, contain₁, List.any_cons, Bool.or_assoc]
    · rcases entries₂ e mem with old | ⟨s, mem', rfl⟩
      · rcases entries₁ e old with older | rfl
        · exact Or.inl older
        · exact Or.inr ⟨subnet, List.mem_cons_self, rfl⟩
      · exact Or.inr ⟨s, List.mem_cons_of_mem _ mem', rfl⟩
    · rw [Bool.or_eq_false_iff] at none
      rw [kept₂ none.2, kept₁ none.1]

/-- The flannel case of the source's comment: a host's /24, then the /16 that holds it. -/
theorem mergeLocalSubnets_cover_flannel :
    ∃ m' changed, mergeLocalSubnets (id : IPNet → IPNet)
        [⟨⟨[172, 16, 60, 0], [255, 255, 255, 0]⟩, "local"⟩,
          ⟨⟨[172, 16, 0, 0], [255, 255, 0, 0]⟩, "local"⟩] [] = .ok (m', changed) ∧
      SubnetCover id m' ∧ ∀ ip, subnetsContain m' ip =
        ((IPNet.mk [172, 16, 60, 0] [255, 255, 255, 0]).contains ip ||
          (IPNet.mk [172, 16, 0, 0] [255, 255, 0, 0]).contains ip) := by
  have cidrs : ∀ s ∈ [(⟨⟨[172, 16, 60, 0], [255, 255, 255, 0]⟩, "local"⟩ : CLUSSubnet),
      ⟨⟨[172, 16, 0, 0], [255, 255, 0, 0]⟩, "local"⟩], Cidr4 s.subnet := by
    simp only [List.forall_mem_cons, List.not_mem_nil, IsEmpty.forall_iff, implies_true, and_true]
    exact ⟨⟨rfl, ⟨24, by decide, by decide⟩, by decide⟩, ⟨rfl, ⟨16, by decide, by decide⟩, by decide⟩⟩
  obtain ⟨m', changed, run, inv, contain, -, -⟩ :=
    mergeLocalSubnets_cover (fun _ _ _ _ same => same) _ [] (subnetCover_nil id) cidrs
  refine ⟨m', changed, run, inv, fun ip => ?_⟩
  rw [contain]
  simp [subnetsContain]

end Merge

end MicroSegment.Share
