import MicroSegment.Lib.Decimal

/-!
# Port-range links (`share/utils/utils.go`)

A port-range link names a protocol and a range of ports: `tcp/80`, `udp/1-1024`, `icmp`, `ip:47`,
or a bare range such as `8080` or `any`, which has protocol 0. `GetPortRangeLink` writes one and
`ParsePortRangeLink` reads one back; `GetCommonPorts` intersects two comma-separated lists of
them pairwise.

A parsed link covers the (protocol, port) pairs of its range, every protocol when its protocol is
0 (`Covers`), and a list denotes what its links that parse cover (`portsDenote`). For protocols
0, TCP and UDP, reading a written link gives back what was written, and the common ports of two
lists of such links denote the intersection of what the lists denote
(`portRangeLink_round_trip_common`).

Go strings are byte strings; the links are ASCII, so the model's character lists agree with them
and `name[4:]` is `name.drop 4`.
-/

namespace MicroSegment.Share

def cliAny : List Char := "any".toList

def ipprotoIcmp : UInt8 := 1
def ipprotoTcp : UInt8 := 6
def ipprotoUdp : UInt8 := 17

/-- The errors `ParsePortRangeLink` returns. -/
inductive PortLinkError where
  /-- `strconv.Atoi`'s error on a field. -/
  | atoi (field : List Char)
  /-- `Unable to parse %s`. -/
  | unableToParse (name : List Char)
  deriving DecidableEq, Repr

/-- `strconv.Atoi`, failing with the field it cannot read. -/
def atoi (s : List Char) : Except PortLinkError Int :=
  match Decimal.atoi s with
  | some v => .ok v
  | none => .error (.atoi s)

/-- `fmt.Sprintf("%d", v)`. -/
def decimal (v : Nat) : List Char := Nat.toDigits 10 v

/-- `getPortRange`: `any`, one port, or two ports around the first dash in either order.
`uint16(val)` keeps the low 16 bits of what `Atoi` reads. -/
def getPortRange (port : List Char) : Except PortLinkError (UInt16 × UInt16) :=
  if port = cliAny then .ok (0, 0xffff)
  else
    let portRange := port.splitOn '-'
    -- `strings.Split` returns at least one field
    match atoi (portRange.head (List.splitOn_ne_nil _ _)) with
    | .error e => .error e
    | .ok val =>
      let low := UInt16.ofInt val
      match portRange with
      | [_, second] =>
        match atoi second with
        | .error e => .error e
        | .ok val =>
          let high := UInt16.ofInt val
          if high > low then .ok (low, high) else .ok (high, low)
      | _ => .ok (low, low)

/-- `ParsePortRangeLink`: the protocol and the range. The numbers Go returns beside an error are
left out, as every caller drops them. -/
def parsePortRangeLink (name : List Char) : Except PortLinkError (UInt8 × UInt16 × UInt16) :=
  if "tcp/".toList.isPrefixOf name then
    (getPortRange (name.drop 4)).map fun (low, high) => (ipprotoTcp, low, high)
  else if "udp/".toList.isPrefixOf name then
    (getPortRange (name.drop 4)).map fun (low, high) => (ipprotoUdp, low, high)
  else if name = "icmp".toList then .ok (ipprotoIcmp, 0, 0xffff)
  else if "ip:".toList.isPrefixOf name then
    (atoi (name.drop 3)).map fun proto => (UInt8.ofInt proto, 0, 0xffff)
  else if name = cliAny then .ok (0, 0, 0xffff)
  else
    match getPortRange name with
    | .ok (low, high) => .ok (0, low, high)
    | .error _ => .error (.unableToParse name)

def getPortRangeStr (port portR : UInt16) : List Char :=
  if port = portR then decimal port.toNat
  else if port = 0 ∧ portR = 0xffff then cliAny
  else if port < portR then decimal port.toNat ++ '-' :: decimal portR.toNat
  else decimal portR.toNat ++ '-' :: decimal port.toNat

def getPortRangeLink (ipproto : UInt8) (port portR : UInt16) : List Char :=
  if ipproto = ipprotoTcp then "tcp/".toList ++ getPortRangeStr port portR
  else if ipproto = ipprotoUdp then "udp/".toList ++ getPortRangeStr port portR
  else if ipproto = ipprotoIcmp then "icmp".toList
  else if ipproto ≠ 0 then "ip:".toList ++ decimal ipproto.toNat
  else getPortRangeStr port portR

/-- The protocol and range two parsed links share in `GetCommonPorts`, or `none` where its loop
`continue`s: protocol 0 takes the other's, and the range is the overlap. -/
def commonRange (a b : UInt8 × UInt16 × UInt16) : Option (UInt8 × UInt16 × UInt16) :=
  let (proto1, low1, high1) := a
  let (proto2, low2, high2) := b
  let proto? : Option UInt8 :=
    if proto1 = 0 then some proto2
    else if proto2 = 0 then some proto1
    else if proto1 = proto2 then some proto1
    else none
  match proto? with
  | none => none
  | some proto =>
    if high1 < low2 ∨ high2 < low1 then none
    else some (proto, if low1 > low2 then low1 else low2, if high1 > high2 then high2 else high1)

def appendLink (p pp : List Char) : List Char := if p = [] then pp else p ++ ',' :: pp

/-- The inner loop of `GetCommonPorts`, over the second list for one parsed link of the first. -/
def commonPortsWith (l1 : UInt8 × UInt16 × UInt16) (p2 : List (List Char)) (p : List Char) :
    List Char :=
  p2.foldl (fun p pp2 =>
    match parsePortRangeLink pp2 with
    | .error _ => p
    | .ok l2 =>
      match commonRange l1 l2 with
      | none => p
      | some (proto, low, high) => appendLink p (getPortRangeLink proto low high)) p

def getCommonPorts (ports1 ports2 : List Char) : List Char :=
  let p1 := ports1.splitOn ','
  let p2 := ports2.splitOn ','
  p1.foldl (fun p pp1 =>
    match parsePortRangeLink pp1 with
    | .error _ => p
    | .ok l1 => commonPortsWith l1 p2 p) []

/-! ### Reading back a written link -/

theorem ofInt_toNat (u : UInt16) : UInt16.ofInt (u.toNat : Int) = u := by
  apply UInt16.toNat_inj.mp
  have small := u.toNat_lt
  unfold UInt16.ofInt
  rw [UInt16.toNat_ofNat']
  omega

theorem atoi_decimal (u : UInt16) : atoi (decimal u.toNat) = .ok (u.toNat : Int) := by
  have small := u.toNat_lt
  unfold atoi decimal
  rw [Decimal.atoi_toDigits (by omega)]

theorem isDigit_of_mem_decimal {v : Nat} {c : Char} (mem : c ∈ decimal v) : c.isDigit = true :=
  Nat.isDigit_of_mem_toDigits (by decide) (by decide) mem

/-- A field that starts with a digit, as every number written in decimal does. -/
def StartsWithDigit (s : List Char) : Prop := ∃ c t, s = c :: t ∧ c.isDigit = true

theorem startsWithDigit_decimal (v : Nat) : StartsWithDigit (decimal v) := by
  cases digits : decimal v with
  | nil => exact absurd digits Nat.toDigits_ne_nil
  | cons c t => exact ⟨c, t, rfl, isDigit_of_mem_decimal (by rw [digits]; exact List.mem_cons_self)⟩

theorem StartsWithDigit.append {s : List Char} (start : StartsWithDigit s) (t : List Char) :
    StartsWithDigit (s ++ t) := by
  obtain ⟨c, rest, rfl, digit⟩ := start
  exact ⟨c, rest ++ t, rfl, digit⟩

theorem StartsWithDigit.not_keyword {s : List Char} (start : StartsWithDigit s) :
    "tcp/".toList.isPrefixOf s = false ∧ "udp/".toList.isPrefixOf s = false ∧
      s ≠ "icmp".toList ∧ "ip:".toList.isPrefixOf s = false ∧ s ≠ cliAny := by
  obtain ⟨c, t, rfl, digit⟩ := start
  have letter : ∀ d : Char, d.isDigit = false → c ≠ d := fun d other same => by
    rw [same, other] at digit
    exact Bool.false_ne_true digit
  have t' := letter 't' rfl
  have u' := letter 'u' rfl
  have i' := letter 'i' rfl
  have a' := letter 'a' rfl
  simp [cliAny, List.isPrefixOf, t'.symm, u'.symm, i'.symm, i', a']

theorem splitOn_decimal (v : Nat) {sep : Char} (notDigit : sep.isDigit = false) :
    (decimal v).splitOn sep = [decimal v] :=
  List.splitOn_eq_singleton fun mem => by
    rw [isDigit_of_mem_decimal mem] at notDigit
    exact Bool.noConfusion notDigit

theorem getPortRange_cliAny : getPortRange cliAny = .ok (0, 0xffff) := by
  unfold getPortRange
  rw [if_pos rfl]

theorem getPortRange_decimal (u : UInt16) : getPortRange (decimal u.toNat) = .ok (u, u) := by
  unfold getPortRange
  rw [if_neg (startsWithDigit_decimal _).not_keyword.2.2.2.2]
  simp only [splitOn_decimal _ (show '-'.isDigit = false by decide), List.head_cons,
    atoi_decimal, ofInt_toNat]

theorem getPortRange_pair {lo hi : UInt16} (lt : lo < hi) :
    getPortRange (decimal lo.toNat ++ '-' :: decimal hi.toNat) = .ok (lo, hi) := by
  have dash : '-' ∉ decimal lo.toNat := fun mem => absurd (isDigit_of_mem_decimal mem) (by decide)
  unfold getPortRange
  rw [if_neg (((startsWithDigit_decimal _).append _).not_keyword.2.2.2.2)]
  simp only [List.splitOn_append_cons_self_of_not_mem dash,
    splitOn_decimal _ (show '-'.isDigit = false by decide), List.head_cons, atoi_decimal,
    ofInt_toNat]
  rw [if_pos lt]

theorem getPortRangeStr_cases (lo hi : UInt16) :
    (getPortRangeStr lo hi = cliAny ∧ lo = 0 ∧ hi = 0xffff) ∨ StartsWithDigit (getPortRangeStr lo hi) := by
  unfold getPortRangeStr
  split_ifs with same full less
  · exact .inr (startsWithDigit_decimal _)
  · exact .inl ⟨rfl, full⟩
  · exact .inr ((startsWithDigit_decimal _).append _)
  · exact .inr ((startsWithDigit_decimal _).append _)

theorem getPortRange_getPortRangeStr {lo hi : UInt16} (le : lo ≤ hi) :
    getPortRange (getPortRangeStr lo hi) = .ok (lo, hi) := by
  unfold getPortRangeStr
  split_ifs with same full less
  · rw [getPortRange_decimal, same]
  · rw [getPortRange_cliAny, full.1, full.2]
  · exact getPortRange_pair less
  · have below := UInt16.le_iff_toNat_le.mp le
    have other : lo.toNat ≠ hi.toNat := fun eq => same (UInt16.toNat_inj.mp eq)
    exact absurd (UInt16.lt_iff_toNat_lt.mpr (by omega)) less

theorem parsePortRangeLink_getPortRangeStr {lo hi : UInt16} (le : lo ≤ hi) :
    parsePortRangeLink (getPortRangeStr lo hi) = .ok (0, lo, hi) := by
  rcases getPortRangeStr_cases lo hi with ⟨any, rfl, rfl⟩ | start
  · rw [any]
    rfl
  · obtain ⟨tcp, udp, icmp, ip, notAny⟩ := start.not_keyword
    unfold parsePortRangeLink
    rw [if_neg (by rw [tcp]; decide), if_neg (by rw [udp]; decide), if_neg icmp,
      if_neg (by rw [ip]; decide), if_neg notAny, getPortRange_getPortRangeStr le]

theorem getPortRangeLink_zero (lo hi : UInt16) : getPortRangeLink 0 lo hi = getPortRangeStr lo hi := by
  unfold getPortRangeLink
  rw [if_neg (by decide), if_neg (by decide), if_neg (by decide), if_neg (by decide)]

theorem getPortRangeLink_tcp (lo hi : UInt16) :
    getPortRangeLink ipprotoTcp lo hi = "tcp/".toList ++ getPortRangeStr lo hi := by
  unfold getPortRangeLink
  rw [if_pos rfl]

theorem getPortRangeLink_udp (lo hi : UInt16) :
    getPortRangeLink ipprotoUdp lo hi = "udp/".toList ++ getPortRangeStr lo hi := by
  unfold getPortRangeLink
  rw [if_neg (by decide), if_pos rfl]

theorem getPortRangeLink_icmp (lo hi : UInt16) : getPortRangeLink ipprotoIcmp lo hi = "icmp".toList := by
  unfold getPortRangeLink
  rw [if_neg (by decide), if_neg (by decide), if_pos rfl]

theorem parsePortRangeLink_getPortRangeLink {proto : UInt8} {lo hi : UInt16}
    (encodable : proto = 0 ∨ proto = ipprotoTcp ∨ proto = ipprotoUdp) (le : lo ≤ hi) :
    parsePortRangeLink (getPortRangeLink proto lo hi) = .ok (proto, lo, hi) := by
  rcases encodable with rfl | rfl | rfl
  · rw [getPortRangeLink_zero]
    exact parsePortRangeLink_getPortRangeStr le
  · rw [getPortRangeLink_tcp]
    unfold parsePortRangeLink
    rw [if_pos (by simp), List.drop_left' (by rfl), getPortRange_getPortRangeStr le]
    rfl
  · rw [getPortRangeLink_udp]
    unfold parsePortRangeLink
    rw [if_neg (by simp [List.isPrefixOf]), if_pos (by simp), List.drop_left' (by rfl),
      getPortRange_getPortRangeStr le]
    rfl

theorem parsePortRangeLink_icmp (lo hi : UInt16) :
    parsePortRangeLink (getPortRangeLink ipprotoIcmp lo hi) = .ok (ipprotoIcmp, 0, 0xffff) := by
  rw [getPortRangeLink_icmp]
  rfl

theorem parsePortRangeLink_nil : parsePortRangeLink [] = .error (.unableToParse []) := rfl

/-- The link `GetPortRangeLink` writes for a parsed link. -/
def encodeLink (l : UInt8 × UInt16 × UInt16) : List Char := getPortRangeLink l.1 l.2.1 l.2.2

/-- A link of protocol 0, TCP or UDP with its range in order. -/
def RangeLink (l : UInt8 × UInt16 × UInt16) : Prop :=
  (l.1 = 0 ∨ l.1 = ipprotoTcp ∨ l.1 = ipprotoUdp) ∧ l.2.1 ≤ l.2.2

def joinLinks (ls : List (UInt8 × UInt16 × UInt16)) : List Char :=
  [','].intercalate (ls.map encodeLink)

def parsedLinks (ports : List Char) : List (UInt8 × UInt16 × UInt16) :=
  (ports.splitOn ',').filterMap fun link => (parsePortRangeLink link).toOption

/-- The links `GetCommonPorts` writes, in the order it writes them. -/
def commonLinks (ports1 ports2 : List Char) : List (UInt8 × UInt16 × UInt16) :=
  (parsedLinks ports1).flatMap fun l1 => (parsedLinks ports2).filterMap (commonRange l1)

theorem RangeLink.parse {l : UInt8 × UInt16 × UInt16} (range : RangeLink l) :
    parsePortRangeLink (encodeLink l) = .ok l :=
  parsePortRangeLink_getPortRangeLink range.1 range.2

theorem comma_not_mem_getPortRangeStr (lo hi : UInt16) : ',' ∉ getPortRangeStr lo hi := by
  have digits : ∀ v, ',' ∉ decimal v := fun v mem =>
    absurd (isDigit_of_mem_decimal mem) (by decide)
  unfold getPortRangeStr
  split_ifs <;> simp [cliAny, digits]

theorem comma_not_mem_getPortRangeLink (proto : UInt8) (lo hi : UInt16) :
    ',' ∉ getPortRangeLink proto lo hi := by
  have digits : ∀ v, ',' ∉ decimal v := fun v mem =>
    absurd (isDigit_of_mem_decimal mem) (by decide)
  unfold getPortRangeLink
  split_ifs <;> simp [comma_not_mem_getPortRangeStr, digits]

theorem getPortRangeLink_ne_nil (proto : UInt8) (lo hi : UInt16) :
    getPortRangeLink proto lo hi ≠ [] := by
  have decimal_ne : ∀ v, decimal v ≠ [] := fun _ => Nat.toDigits_ne_nil
  have str : getPortRangeStr lo hi ≠ [] := by
    unfold getPortRangeStr
    split_ifs <;> simp [cliAny, decimal_ne]
  unfold getPortRangeLink
  split_ifs <;> simp [str]

theorem parsedLinks_joinLinks {ls : List (UInt8 × UInt16 × UInt16)} (range : ∀ l ∈ ls, RangeLink l) :
    parsedLinks (joinLinks ls) = ls := by
  unfold parsedLinks joinLinks
  cases ls with
  | nil => simp [parsePortRangeLink_nil, Except.toOption]
  | cons l ls =>
    have commas : ∀ link ∈ (l :: ls).map encodeLink, ',' ∉ link := by
      intro link mem
      obtain ⟨l', -, rfl⟩ := List.mem_map.mp mem
      exact comma_not_mem_getPortRangeLink _ _ _
    have back : ∀ l' ∈ l :: ls,
        ((fun link => (parsePortRangeLink link).toOption) ∘ encodeLink) l' = some l' := by
      intro l' mem
      simp only [Function.comp, (range l' mem).parse]
      rfl
    rw [List.splitOn_intercalate _ commas (by simp), List.filterMap_map, List.filterMap_congr back,
      List.filterMap_some]

theorem foldl_appendLink {p : List Char} (start : p ≠ []) (pps : List (List Char)) :
    pps.foldl appendLink p = [','].intercalate (p :: pps) := by
  induction pps generalizing p with
  | nil => simp
  | cons pp pps ih =>
    have appended : appendLink p pp = p ++ ',' :: pp := if_neg start
    rw [List.foldl_cons, appended, ih (by simp)]
    cases pps <;> simp [List.intercalate_cons_cons]

theorem foldl_appendLink_nil {pps : List (List Char)} (links : ∀ pp ∈ pps, pp ≠ []) :
    pps.foldl appendLink [] = [','].intercalate pps := by
  cases pps with
  | nil => rfl
  | cons pp pps =>
    have first : appendLink [] pp = pp := if_pos rfl
    rw [List.foldl_cons, first, foldl_appendLink (links pp List.mem_cons_self)]

theorem commonPortsWith_eq (l1 : UInt8 × UInt16 × UInt16) (p2 : List (List Char))
    (p : List Char) :
    commonPortsWith l1 p2 p =
      (((p2.filterMap fun link => (parsePortRangeLink link).toOption).filterMap
        (commonRange l1)).map encodeLink).foldl appendLink p := by
  induction p2 generalizing p with
  | nil => rfl
  | cons link p2 ih =>
    unfold commonPortsWith at ih ⊢
    rw [List.foldl_cons]
    cases parsed : parsePortRangeLink link with
    | error e => simp only [parsed, ih, List.filterMap_cons, Except.toOption]
    | ok l2 =>
      cases common : commonRange l1 l2 with
      | none => simp only [parsed, ih, List.filterMap_cons, Except.toOption, common]
      | some c => simp only [parsed, ih, List.filterMap_cons, Except.toOption, common,
          List.map_cons, List.foldl_cons, encodeLink]

theorem getCommonPorts_eq (ports1 ports2 : List Char) :
    getCommonPorts ports1 ports2 = ((commonLinks ports1 ports2).map encodeLink).foldl appendLink [] := by
  unfold getCommonPorts commonLinks parsedLinks
  dsimp only
  generalize ([] : List Char) = p
  generalize ports1.splitOn ',' = p1
  induction p1 generalizing p with
  | nil => rfl
  | cons link p1 ih =>
    rw [List.foldl_cons]
    cases parsed : parsePortRangeLink link with
    | error e => simp only [parsed, ih, List.filterMap_cons, Except.toOption]
    | ok l1 =>
      dsimp only
      rw [ih, List.filterMap_cons_some (by rw [parsed]; rfl), List.flatMap_cons, List.map_append,
        List.foldl_append, commonPortsWith_eq]

/-! ### What a list of links denotes -/

/-- The (protocol, port) pairs a parsed link covers: protocol 0 covers every protocol. -/
def Covers (l : UInt8 × UInt16 × UInt16) (x : UInt8 × UInt16) : Prop :=
  (l.1 = 0 ∨ x.1 = l.1) ∧ l.2.1 ≤ x.2 ∧ x.2 ≤ l.2.2

def portsDenote (ports : List Char) : Set (UInt8 × UInt16) :=
  {x | ∃ l ∈ parsedLinks ports, Covers l x}

theorem picked_covers {proto1 proto2 proto : UInt8}
    (picked : (if proto1 = 0 then some proto2 else if proto2 = 0 then some proto1
      else if proto1 = proto2 then some proto1 else none) = some proto) (p : UInt8) :
    (proto = 0 ∨ p = proto) ↔ (proto1 = 0 ∨ p = proto1) ∧ (proto2 = 0 ∨ p = proto2) := by
  split_ifs at picked with zero1 zero2 same <;> cases picked
  · simp [zero1]
  · simp [zero2]
  · rw [← same]
    constructor
    · rintro (zero | rfl)
      · exact absurd zero zero1
      · exact ⟨.inr rfl, .inr rfl⟩
    · rintro ⟨first, -⟩
      exact first

theorem unpicked_covers {proto1 proto2 : UInt8}
    (unpicked : (if proto1 = 0 then some proto2 else if proto2 = 0 then some proto1
      else if proto1 = proto2 then some proto1 else none) = none) (p : UInt8) :
    ¬((proto1 = 0 ∨ p = proto1) ∧ (proto2 = 0 ∨ p = proto2)) := by
  split_ifs at unpicked with zero1 zero2 same
  rintro ⟨first | rfl, second | same'⟩
  · exact zero1 first
  · exact zero1 first
  · exact zero2 second
  · exact same same'

theorem overlap_covers {low1 high1 low2 high2 : UInt16} (port : UInt16) :
    ((if low1 > low2 then low1 else low2) ≤ port ∧ port ≤ (if high1 > high2 then high2 else high1)) ↔
      (low1 ≤ port ∧ port ≤ high1) ∧ (low2 ≤ port ∧ port ≤ high2) := by
  simp only [UInt16.lt_iff_toNat_lt, UInt16.le_iff_toNat_le, gt_iff_lt]
  split_ifs <;> omega

theorem apart_covers {low1 high1 low2 high2 : UInt16} (apart : high1 < low2 ∨ high2 < low1)
    (port : UInt16) : ¬((low1 ≤ port ∧ port ≤ high1) ∧ (low2 ≤ port ∧ port ≤ high2)) := by
  simp only [UInt16.lt_iff_toNat_lt, UInt16.le_iff_toNat_le] at apart ⊢
  omega

theorem exists_commonRange_covers (l1 l2 : UInt8 × UInt16 × UInt16) (x : UInt8 × UInt16) :
    (∃ c, commonRange l1 l2 = some c ∧ Covers c x) ↔ Covers l1 x ∧ Covers l2 x := by
  obtain ⟨proto1, low1, high1⟩ := l1
  obtain ⟨proto2, low2, high2⟩ := l2
  obtain ⟨p, port⟩ := x
  unfold commonRange Covers
  dsimp only
  split
  · next unpicked =>
    simp only [reduceCtorEq, false_and, exists_false, false_iff]
    rintro ⟨⟨first, range1⟩, second, range2⟩
    exact unpicked_covers unpicked p ⟨first, second⟩
  · next proto picked =>
    by_cases apart : high1 < low2 ∨ high2 < low1
    · rw [if_pos apart]
      simp only [reduceCtorEq, false_and, exists_false, false_iff]
      rintro ⟨⟨-, range1⟩, -, range2⟩
      exact apart_covers apart port ⟨range1, range2⟩
    · rw [if_neg apart]
      simp only [Option.some.injEq, exists_eq_left']
      rw [picked_covers picked p, overlap_covers port]
      tauto

theorem RangeLink.commonRange {l1 l2 c : UInt8 × UInt16 × UInt16} (range1 : RangeLink l1)
    (range2 : RangeLink l2) (common : commonRange l1 l2 = some c) : RangeLink c := by
  obtain ⟨proto1, low1, high1⟩ := l1
  obtain ⟨proto2, low2, high2⟩ := l2
  unfold MicroSegment.Share.commonRange at common
  dsimp only at common
  split at common
  · exact absurd common (by simp)
  · next proto picked =>
    by_cases apart : high1 < low2 ∨ high2 < low1
    · rw [if_pos apart] at common
      exact absurd common (by simp)
    · rw [if_neg apart] at common
      cases common
      -- the protocol is one of the two links', and the overlap of ranges that meet is in order
      have either : proto = proto1 ∨ proto = proto2 := by
        split_ifs at picked <;> cases picked
        · exact .inr rfl
        · exact .inl rfl
        · exact .inl rfl
      have order1 := UInt16.le_iff_toNat_le.mp range1.2
      have order2 := UInt16.le_iff_toNat_le.mp range2.2
      refine ⟨?_, ?_⟩
      · rcases either with rfl | rfl
        · exact range1.1
        · exact range2.1
      · simp only [UInt16.lt_iff_toNat_lt, UInt16.le_iff_toNat_le, gt_iff_lt] at apart ⊢
        split_ifs <;> omega

theorem portsDenote_joinLinks {ls : List (UInt8 × UInt16 × UInt16)}
    (range : ∀ l ∈ ls, RangeLink l) : portsDenote (joinLinks ls) = {x | ∃ l ∈ ls, Covers l x} := by
  unfold portsDenote
  rw [parsedLinks_joinLinks range]

theorem getCommonPorts_joinLinks {ls1 ls2 : List (UInt8 × UInt16 × UInt16)}
    (range1 : ∀ l ∈ ls1, RangeLink l) (range2 : ∀ l ∈ ls2, RangeLink l) :
    getCommonPorts (joinLinks ls1) (joinLinks ls2) =
      joinLinks (ls1.flatMap fun l1 => ls2.filterMap (commonRange l1)) := by
  have written : ∀ pp ∈ (commonLinks (joinLinks ls1) (joinLinks ls2)).map encodeLink, pp ≠ [] := by
    intro pp mem
    obtain ⟨l, -, rfl⟩ := List.mem_map.mp mem
    exact getPortRangeLink_ne_nil _ _ _
  rw [getCommonPorts_eq, foldl_appendLink_nil written, commonLinks, parsedLinks_joinLinks range1,
    parsedLinks_joinLinks range2]
  rfl

theorem portRangeLink_round_trip_common :
    (∀ (proto : UInt8) (lo hi : UInt16), (proto = 0 ∨ proto = ipprotoTcp ∨ proto = ipprotoUdp) →
      lo ≤ hi → parsePortRangeLink (getPortRangeLink proto lo hi) = .ok (proto, lo, hi)) ∧
    (∀ lo hi : UInt16,
      parsePortRangeLink (getPortRangeLink ipprotoIcmp lo hi) = .ok (ipprotoIcmp, 0, 0xffff)) ∧
    (∀ ls1 ls2 : List (UInt8 × UInt16 × UInt16), (∀ l ∈ ls1, RangeLink l) →
      (∀ l ∈ ls2, RangeLink l) →
      portsDenote (getCommonPorts (joinLinks ls1) (joinLinks ls2)) =
        portsDenote (joinLinks ls1) ∩ portsDenote (joinLinks ls2)) := by
  refine ⟨fun proto lo hi encodable le => parsePortRangeLink_getPortRangeLink encodable le,
    parsePortRangeLink_icmp, fun ls1 ls2 range1 range2 => ?_⟩
  have commons : ∀ c ∈ ls1.flatMap (fun l1 => ls2.filterMap (commonRange l1)), RangeLink c := by
    intro c mem
    obtain ⟨l1, mem1, mem'⟩ := List.mem_flatMap.mp mem
    obtain ⟨l2, mem2, common⟩ := List.mem_filterMap.mp mem'
    exact (range1 l1 mem1).commonRange (range2 l2 mem2) common
  rw [getCommonPorts_joinLinks range1 range2, portsDenote_joinLinks commons,
    portsDenote_joinLinks range1, portsDenote_joinLinks range2]
  -- a pair is in a common range of two links exactly when both links cover it
  ext x
  simp only [Set.mem_ofPred_eq, Set.mem_inter_iff, List.mem_flatMap, List.mem_filterMap]
  constructor
  · rintro ⟨c, ⟨l1, mem1, l2, mem2, common⟩, covers⟩
    obtain ⟨covers1, covers2⟩ := (exists_commonRange_covers l1 l2 x).mp ⟨c, common, covers⟩
    exact ⟨⟨l1, mem1, covers1⟩, l2, mem2, covers2⟩
  · rintro ⟨⟨l1, mem1, covers1⟩, l2, mem2, covers2⟩
    obtain ⟨c, common, covers⟩ := (exists_commonRange_covers l1 l2 x).mpr ⟨covers1, covers2⟩
    exact ⟨c, ⟨l1, mem1, l2, mem2, common⟩, covers⟩

end MicroSegment.Share
