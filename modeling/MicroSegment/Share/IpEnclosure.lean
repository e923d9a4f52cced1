import MicroSegment.Share.IpNet
import MicroSegment.Lib.BitPrefix

/-!
# The smallest network around some addresses (`GetIPEnclosure`, `share/utils/utils.go`)

The loop reads each address with `ipToInt`, skips those it cannot read, keeps the bitwise `and`
and the largest of the values, and returns nil when two families meet. The network is the `and`
under a mask of `bits - BitLen(max - and)` ones. `BitPrefix` shows that this is the longest
prefix the values share; the byte lemmas of `IpNet` carry it to `IPNet.Contains`.
-/

namespace MicroSegment.Share

open BigEndian

/-- The variables of `GetIPEnclosure`'s loop. -/
structure EnclosureScan where
  val : Nat
  max : Nat
  bits : Nat
  first : Bool
  deriving DecidableEq, Repr

def EnclosureScan.init : EnclosureScan := ⟨0, 0, 0, true⟩

def enclosureStep (scan : EnclosureScan) (ip : IP) : Option EnclosureScan :=
  match ipToInt ip with
  | none => some scan
  | some (ipInt, ipBits) =>
    if scan.first then some ⟨ipInt, ipInt, ipBits, false⟩
    else if scan.bits ≠ ipBits then none
    else some ⟨scan.val &&& ipInt, if scan.max < ipInt then ipInt else scan.max, scan.bits, false⟩

def getIPEnclosure (ips : List IP) : Except Panic (Option IPNet) :=
  match ips.foldlM enclosureStep EnclosureScan.init with
  | none => .ok none
  | some scan =>
    if scan.first then .ok none
    else
      let zeros := Nat.size (scan.max - scan.val)
      match intToIP scan.val scan.bits with
      | .error e => .error e
      | .ok ip => .ok (some (ipNet2Subnet ⟨ip, cidrMask ((scan.bits : Int) - zeros) scan.bits⟩))

/-- What the loop variables hold for the values and widths `read` so far: `first` until there
is one, and then the width of all of them, the `and` of the values and the largest value. -/
structure EnclosureScan.Holds (scan : EnclosureScan) (read : List (Nat × Nat)) : Prop where
  first : scan.first = true ↔ read = []
  family : ∀ p ∈ read, p.2 = scan.bits
  val : scan.first = false → BitPrefix.AndOf scan.val (read.map Prod.fst)
  top : scan.first = false → scan.max ∈ read.map Prod.fst
  max : ∀ x ∈ read.map Prod.fst, x ≤ scan.max

/-- The loop variables after the addresses `done`. -/
def EnclosureScan.Reads (scan : EnclosureScan) (done : List IP) : Prop :=
  scan.Holds (done.filterMap ipToInt)

theorem EnclosureScan.reads_init : EnclosureScan.init.Reads [] where
  first := by simp [EnclosureScan.init]
  family := by simp
  val := by simp [EnclosureScan.init]
  top := by simp [EnclosureScan.init]
  max := by simp

theorem filterMap_ipToInt_concat {done : List IP} {ip : IP} {p : Nat × Nat}
    (read : ipToInt ip = some p) :
    (done ++ [ip]).filterMap ipToInt = done.filterMap ipToInt ++ [p] := by
  rw [List.filterMap_append, List.filterMap_cons_some read, List.filterMap_nil]

theorem EnclosureScan.Reads.step {scan scan' : EnclosureScan} {done : List IP} {ip : IP}
    (reads : scan.Reads done) (stepped : enclosureStep scan ip = some scan') :
    scan'.Reads (done ++ [ip]) := by
  unfold enclosureStep at stepped
  unfold EnclosureScan.Reads at reads ⊢
  cases read : ipToInt ip with
  | none =>
    rw [read] at stepped
    cases stepped
    rw [List.filterMap_append, List.filterMap_cons_none read, List.filterMap_nil, List.append_nil]
    exact reads
  | some p =>
    obtain ⟨x, b⟩ := p
    rw [read] at stepped
    dsimp only at stepped
    rw [filterMap_ipToInt_concat read]
    by_cases first : scan.first = true
    · -- the first address read
      rw [if_pos first] at stepped
      cases stepped
      rw [reads.first.mp first, List.nil_append]
      exact ⟨by simp, by simp, fun _ => BitPrefix.AndOf.singleton x, fun _ => by simp,
        by simp⟩
    · -- a later address, of the same width since the loop did not return
      have later := Bool.eq_false_iff.mpr first
      rw [if_neg first] at stepped
      by_cases differ : scan.bits ≠ b
      · rw [if_pos differ] at stepped
        cases stepped
      rw [if_neg differ] at stepped
      cases stepped
      refine ⟨by simp, ?_, fun _ => ?_, fun _ => ?_, ?_⟩
      · intro q mem
        rcases List.mem_append.mp mem with old | new
        · exact reads.family q old
        · rw [List.mem_singleton.mp new]
          exact (not_not.mp differ).symm
      · rw [List.map_append, List.map_singleton]
        exact (reads.val later).and x
      · rw [List.map_append, List.map_singleton]
        split_ifs
        · exact List.mem_append_right _ (List.mem_singleton_self x)
        · exact List.mem_append_left _ (reads.top later)
      · intro y mem
        rw [List.map_append, List.map_singleton] at mem
        rcases List.mem_append.mp mem with before | new
        · have := reads.max y before
          dsimp only
          split_ifs <;> omega
        · rw [List.mem_singleton.mp new]
          dsimp only
          split_ifs <;> omega

theorem EnclosureScan.Reads.foldlM {scan scan' : EnclosureScan} {done rest : List IP}
    (reads : scan.Reads done) (run : rest.foldlM enclosureStep scan = some scan') :
    scan'.Reads (done ++ rest) := by
  induction rest generalizing scan done with
  | nil =>
    cases run
    rw [List.append_nil]
    exact reads
  | cons ip rest ih =>
    rw [List.foldlM_cons] at run
    cases stepped : enclosureStep scan ip with
    | none =>
      rw [stepped] at run
      cases run
    | some next =>
      rw [stepped] at run
      have moved := ih (reads.step stepped) run
      rwa [List.append_assoc, List.singleton_append] at moved

theorem enclosureStep_eq_none {scan : EnclosureScan} {ip : IP}
    (stepped : enclosureStep scan ip = none) :
    scan.first = false ∧ ∃ x b, ipToInt ip = some (x, b) ∧ b ≠ scan.bits := by
  unfold enclosureStep at stepped
  cases read : ipToInt ip with
  | none =>
    rw [read] at stepped
    cases stepped
  | some p =>
    obtain ⟨x, b⟩ := p
    rw [read] at stepped
    dsimp only at stepped
    split_ifs at stepped with first differ
    exact ⟨Bool.eq_false_iff.mpr first, x, b, rfl, Ne.symm differ⟩

theorem EnclosureScan.Reads.foldlM_isSome {scan : EnclosureScan} {done rest : List IP}
    {bits : Nat} (reads : scan.Reads done)
    (same : ∀ p ∈ (done ++ rest).filterMap ipToInt, p.2 = bits) :
    ∃ scan', rest.foldlM enclosureStep scan = some scan' := by
  induction rest generalizing scan done with
  | nil => exact ⟨scan, rfl⟩
  | cons ip rest ih =>
    rw [List.foldlM_cons]
    cases stepped : enclosureStep scan ip with
    | none =>
      -- an earlier address and this one both have width `bits`
      obtain ⟨later, x, b, read, differ⟩ := enclosureStep_eq_none stepped
      obtain ⟨p, earlier⟩ := List.exists_mem_of_ne_nil _
        (fun none => absurd (reads.first.mpr none) (by rw [later]; decide))
      have mine : b = bits := same (x, b) (List.mem_filterMap.mpr ⟨ip, by simp, read⟩)
      have theirs : p.2 = bits := same p (by
        rw [List.filterMap_append]
        exact List.mem_append_left _ earlier)
      exact absurd (mine.trans (theirs.symm.trans (reads.family p earlier))) differ
    | some next =>
      refine ih (reads.step stepped) ?_
      rwa [List.append_assoc, List.singleton_append]

/-! ### The network -/

section family

variable {ips : List IP} {bits : Nat}

theorem enclosure_scan (nonempty : ips ≠ []) (family : ∀ ip ∈ ips, ∃ x, ipToInt ip = some (x, bits)) :
    ∃ scan, ips.foldlM enclosureStep EnclosureScan.init = some scan ∧ scan.Reads ips ∧
      scan.first = false ∧ scan.bits = bits := by
  have same : ∀ p ∈ ([] ++ ips).filterMap ipToInt, p.2 = bits := by
    intro p mem
    obtain ⟨ip, mem, read⟩ := List.mem_filterMap.mp (by simpa using mem)
    obtain ⟨x, read'⟩ := family ip mem
    rw [read'] at read
    cases read
    rfl
  obtain ⟨scan, run⟩ := EnclosureScan.reads_init.foldlM_isSome same
  have reads : scan.Reads ips := by simpa using EnclosureScan.reads_init.foldlM run
  obtain ⟨ip, mem⟩ := List.exists_mem_of_ne_nil ips nonempty
  obtain ⟨x, read⟩ := family ip mem
  have readOne : (x, bits) ∈ ips.filterMap ipToInt := List.mem_filterMap.mpr ⟨ip, mem, read⟩
  have later : scan.first = false :=
    Bool.eq_false_iff.mpr fun first => absurd (reads.first.mp first) (List.ne_nil_of_mem readOne)
  exact ⟨scan, run, reads, later, (reads.family _ readOne).symm⟩

theorem mem_read_values {x : Nat} (mem : x ∈ (ips.filterMap ipToInt).map Prod.fst) :
    ∃ ip ∈ ips, ∃ b, ipToInt ip = some (x, b) := by
  obtain ⟨⟨y, b⟩, readOne, rfl⟩ := List.mem_map.mp mem
  obtain ⟨ip, member, read⟩ := List.mem_filterMap.mp readOne
  exact ⟨ip, member, b, read⟩

theorem common_of_contains {base : IP} {q : Nat} (nonempty : ips ≠ [])
    (family : ∀ ip ∈ ips, ∃ x, ipToInt ip = some (x, bits)) (wide : bits = 32 ∨ bits = 128)
    (le : q ≤ bits) (all : ∀ ip ∈ ips, (IPNet.mk base (cidrMask q bits)).contains ip = true) :
    ∃ c, ∀ x ∈ (ips.filterMap ipToInt).map Prod.fst, x >>> (bits - q) = c := by
  set net : IPNet := ⟨base, cidrMask q bits⟩
  obtain ⟨ip, mem⟩ := List.exists_mem_of_ne_nil ips nonempty
  obtain ⟨x, read⟩ := family ip mem
  -- the network number has the addresses' length, so the mask is the whole `CIDRMask`
  have numberLen : (networkNumberAndMask net).1.length = bits / 8 := by
    rw [← ((IPNet.contains_iff.mp (all ip mem)).1), (ipToInt_containsForm read).2.1]
  have masked : (networkNumberAndMask net).2 = cidrMask q bits :=
    networkNumberAndMask_mask (numberLen.trans (length_cidrMask wide le).symm)
  have width : 8 * (networkNumberAndMask net).1.length = bits := by omega
  have maskVal : ofBytes (networkNumberAndMask net).2 =
      2 ^ (8 * (networkNumberAndMask net).1.length) - 2 ^ (bits - q) := by
    rw [masked, ofBytes_cidrMask wide le, width]
  refine ⟨ofBytes (networkNumberAndMask net).1 >>> (bits - q), fun y member => ?_⟩
  obtain ⟨ip', mem', b, read'⟩ := mem_read_values member
  obtain ⟨x', read''⟩ := family ip' mem'
  rw [read''] at read'
  cases read'
  have held := (IPNet.contains_iff_shiftRight (by omega) maskVal).mp (all ip' mem')
  rw [← held.2, (ipToInt_containsForm read'').2.2]

end family

theorem to4_of_agree {ip net : IP} {k : Nat} (len : ip.length = 16) (netLen : net.length = 16)
    (mapped : net.to4 ≠ []) (low : ofBytes net = ofBytes net >>> k <<< k)
    (agree : ofBytes ip >>> k = ofBytes net >>> k) : ip.to4 ≠ [] := by
  have split : ∀ a : IP, a.length = 16 → ofBytes a >>> 32 = ofBytes (a.take 12) := by
    intro a len
    have := ofBytes_append_shiftRight (a.take 12) (a.drop 12)
    rwa [List.take_append_drop, List.length_drop, len] at this
  have prefixed := (IP.to4_ne_nil_iff netLen).mp mapped
  have high : ofBytes net >>> 32 = 0xffff := by
    rw [split net netLen, prefixed]
    rfl
  -- bit 32 of the network number is set, so the mask reaches it
  have reach : k ≤ 32 := by
    have bit : (ofBytes net).testBit 32 = true := by
      have := Nat.testBit_shiftRight (ofBytes net) (i := 32) (j := 0)
      rw [high] at this
      exact this.symm.trans (by decide)
    rw [low, Nat.testBit_shiftLeft] at bit
    simp only [Bool.and_eq_true, decide_eq_true_eq] at bit
    exact bit.1
  have shifted : ofBytes ip >>> 32 = ofBytes net >>> 32 := by
    rw [show 32 = k + (32 - k) by omega, Nat.shiftRight_add, Nat.shiftRight_add, agree]
  rw [split ip len, split net netLen, prefixed] at shifted
  exact (IP.to4_ne_nil_iff len).mpr
    (ofBytes_injective (by simp [len, v4InV6Prefix]) shifted)

/-- For addresses all of one width, `GetIPEnclosure` returns a canonical network (its number
masked, of the family's length) that holds every one of them, and no network of the family with
a longer prefix holds them all. -/
theorem getIPEnclosure_smallest {ips : List IP} {bits : Nat} (nonempty : ips ≠ [])
    (family : ∀ ip ∈ ips, ∃ x, ipToInt ip = some (x, bits)) :
    ∃ n : IPNet, ∃ ones ≤ bits, getIPEnclosure ips = .ok (some n) ∧
      n.mask = cidrMask ones bits ∧ n.ip.length = bits / 8 ∧ n.ip.mask n.mask = n.ip ∧
      (∀ ip ∈ ips, n.contains ip = true) ∧
      ∀ q, ones < q → q ≤ bits → ∀ base : IP,
        ∃ ip ∈ ips, (IPNet.mk base (cidrMask q bits)).contains ip = false := by
  obtain ⟨scan, run, reads, later, rfl⟩ := enclosure_scan nonempty family
  have andOf := reads.val later
  have top := reads.top later
  have max := reads.max
  obtain ⟨ip₀, mem₀⟩ := List.exists_mem_of_ne_nil ips nonempty
  obtain ⟨x₀, read₀⟩ := family ip₀ mem₀
  have wide := (ipToInt_containsForm read₀).1
  have maxLt : scan.max < 2 ^ scan.bits := by
    obtain ⟨ip, mem, b, read⟩ := mem_read_values top
    obtain ⟨x, read'⟩ := family ip mem
    rw [read'] at read
    cases read
    exact ipToInt_lt read'
  have valLe : scan.val ≤ scan.max := andOf.and_eq top ▸ Nat.and_le_right
  have zerosLe : Nat.size (scan.max - scan.val) ≤ scan.bits :=
    Nat.size_le.mpr (lt_of_le_of_lt (Nat.sub_le _ _) maxLt)
  set zeros := Nat.size (scan.max - scan.val)
  obtain ⟨packed, written, packedLen, packedVal⟩ : ∃ ip, intToIP scan.val scan.bits = .ok ip ∧
      ip.length = scan.bits / 8 ∧ ofBytes ip = scan.val :=
    intToIP_of_lt (by rw [show 8 * (scan.bits / 8) = scan.bits by omega]; omega)
  set mask := cidrMask (scan.bits - zeros : Nat) scan.bits
  have maskLen : mask.length = scan.bits / 8 := length_cidrMask wide (Nat.sub_le _ _)
  have maskVal : ofBytes mask = 2 ^ scan.bits - 2 ^ zeros := by
    rw [ofBytes_cidrMask wide (Nat.sub_le _ _), Nat.sub_sub_self zerosLe]
  set net : IPNet := ⟨List.zipWith (· &&& ·) packed mask, mask⟩
  have result : getIPEnclosure ips = .ok (some net) := by
    unfold getIPEnclosure
    rw [run]
    dsimp only
    rw [if_neg (by simp [later]), written]
    dsimp only
    rw [show ((scan.bits : Int) - zeros) = ((scan.bits - zeros : Nat) : Int) by omega]
    unfold ipNet2Subnet
    rw [IP.mask_of_length_eq (packedLen.trans maskLen.symm)]
  have netLen : net.ip.length = scan.bits / 8 := by simp [net, packedLen, maskLen]
  have netVal : ofBytes net.ip = scan.val >>> zeros <<< zeros := by
    show ofBytes (List.zipWith (· &&& ·) packed mask) = _
    rw [ofBytes_zipWith_and (packedLen.trans maskLen.symm), packedVal, maskVal,
      and_two_pow_sub_two_pow zerosLe (lt_of_le_of_lt valLe maxLt)]
  have netHigh : ofBytes net.ip >>> zeros = scan.val >>> zeros := by
    rw [netVal, Nat.shiftLeft_shiftRight]
  -- every address read agrees with the `and` from bit `zeros` up
  have agree : ∀ ip ∈ ips, ∀ x, ipToInt ip = some (x, scan.bits) → x >>> zeros = scan.val >>> zeros :=
    fun ip mem x read => BitPrefix.agree_size andOf top max x
      (List.mem_map.mpr ⟨(x, scan.bits), List.mem_filterMap.mpr ⟨ip, mem, read⟩, rfl⟩)
  have netNumber : networkNumberAndMask net = (net.ip, net.mask) := by
    rcases wide with four | sixteen
    · exact networkNumberAndMask_of_v4 (by rw [netLen, four]) (maskLen.trans (by rw [four]))
    · refine networkNumberAndMask_of_v6 (by rw [netLen, sixteen]) ?_ (maskLen.trans (by rw [sixteen]))
      -- an IPv4-looking number would make the IPv6 addresses IPv4
      by_contra mapped
      rcases ipToInt_cases read₀ with ⟨bad, -⟩ | ⟨-, v6, len, rfl⟩
      · omega
      · exact to4_of_agree len (by rw [netLen, sixteen]) mapped
          (by rw [netHigh, ← netVal]) (by rw [netHigh]; exact agree ip₀ mem₀ _ read₀) v6
  have netWidth : 8 * (networkNumberAndMask net).1.length = scan.bits := by
    rw [netNumber]
    show 8 * net.ip.length = _
    rw [netLen]
    omega
  refine ⟨net, scan.bits - zeros, Nat.sub_le _ _, result, rfl, netLen,
    IP.mask_zipWith_and (packedLen.trans maskLen.symm), ?_, ?_⟩
  · intro ip mem
    obtain ⟨x, read⟩ := family ip mem
    obtain ⟨-, len, val⟩ := ipToInt_containsForm read
    refine (IPNet.contains_iff_shiftRight (k := zeros) (by rw [netWidth]; exact zerosLe)
      (by rw [netWidth, netNumber]; exact maskVal)).mpr ?_
    rw [netNumber]
    exact ⟨len.trans netLen.symm, by rw [val, netHigh]; exact agree ip mem x read⟩
  · intro q longer le base
    by_contra none
    have all : ∀ ip ∈ ips, (IPNet.mk base (cidrMask q scan.bits)).contains ip = true :=
      fun ip mem => Bool.eq_true_of_not_eq_false fun outside => none ⟨ip, mem, outside⟩
    have shared := (BitPrefix.common_iff_size_le andOf top max (scan.bits - q)).mp
      (common_of_contains nonempty family wide le all)
    omega

theorem getIPEnclosure_smallest_hosts :
    ([[10, 1, 2, 3], [10, 1, 3, 4]] : List IP) ≠ [] ∧
      (∀ ip ∈ ([[10, 1, 2, 3], [10, 1, 3, 4]] : List IP), ∃ x, ipToInt ip = some (x, 32)) ∧
      ∃ n : IPNet, ∃ ones : Nat, ones ≤ 32 ∧
        getIPEnclosure [[10, 1, 2, 3], [10, 1, 3, 4]] = .ok (some n) ∧
        n.mask = cidrMask ones (32 : Nat) ∧ n.ip.length = 32 / 8 ∧ n.ip.mask n.mask = n.ip ∧
        (∀ ip ∈ ([[10, 1, 2, 3], [10, 1, 3, 4]] : List IP), n.contains ip = true) ∧
        ∀ q : Nat, ones < q → q ≤ 32 → ∀ base : IP,
          ∃ ip ∈ ([[10, 1, 2, 3], [10, 1, 3, 4]] : List IP),
            (IPNet.mk base (cidrMask q (32 : Nat))).contains ip = false := by
  have family : ∀ ip ∈ ([[10, 1, 2, 3], [10, 1, 3, 4]] : List IP), ∃ x, ipToInt ip = some (x, 32) := by
    intro ip mem
    simp only [List.mem_cons, List.not_mem_nil, or_false] at mem
    rcases mem with rfl | rfl <;> exact ⟨_, rfl⟩
  exact ⟨by simp, family, getIPEnclosure_smallest (by simp) family⟩

end MicroSegment.Share
