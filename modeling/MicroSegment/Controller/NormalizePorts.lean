import MicroSegment.Lib.Decimal

/-!
# Port strings of policy rules (`controller/rest/policy.go`)

`normalizePorts` rewrites the port string of a policy rule in a fixed form. An empty string and
`any` (in any case) stand for every port and become `any`. Otherwise the string is cut into
fields at commas and spaces, and each field is read in turn (`scanField`): `tcp/any`, `udp/any`,
`icmp`, `any`, or a port or range, bare (TCP) or after `tcp/` or `udp/`. A range is split at its
first dash, and `Atoi` accepts a sign. The ranges that an `any` of their protocol does not cover
are sorted by protocol, low and high, and written after `icmp` and the `any` forms.

Go strings are byte strings; the model's character lists agree with them on the ASCII text the
function compares, and `f[4:]` is `f.drop 4`. `strings.EqualFold` against `any` is a comparison
of lower-cased letters, as no other character folds to `a`, `n` or `y`.
-/

namespace MicroSegment.Controller

/-- `api.PolicyPortAny`. -/
def policyPortAny : List Char := "any".toList

def ipprotoIcmp : Int := 1
def ipprotoTcp : Int := 6
def ipprotoUdp : Int := 17

structure PortRange where
  proto : Int
  low : Int
  high : Int
  deriving DecidableEq, Repr

/-- `portRangeSorter.Less`: by protocol, then low port, then high port. -/
def portRangeLess (a b : PortRange) : Bool :=
  if a.proto < b.proto then true
  else if a.proto > b.proto then false
  else if a.low < b.low then true
  else if a.low > b.low then false
  else if a.high < b.high then true
  else false

/-- The errors of `normalizePorts`; its caller reports every one as `Invalid ports format`. -/
inductive PortsError where
  /-- `strconv.Atoi`'s error on a field. -/
  | atoi (field : List Char)
  /-- `Invalid ports format`. -/
  | invalidPortsFormat
  deriving DecidableEq, Repr

/-- `strconv.Atoi`, failing with the field it cannot read. -/
def atoi (s : List Char) : Except PortsError Int :=
  match Decimal.atoi s with
  | some v => .ok v
  | none => .error (.atoi s)

/-- `parseRange`: two ports around the first dash, or one port. -/
def parseRange (s : List Char) : Except PortsError (Int × Int) :=
  let dash := s.idxOf '-'
  if dash < s.length then
    match atoi (s.take dash) with
    | .error e => .error e
    | .ok low =>
      match atoi (s.drop (dash + 1)) with
      | .error e => .error e
      | .ok high => .ok (low, high)
  else
    match atoi s with
    | .error e => .error e
    | .ok low => .ok (low, low)

/-- `strings.Trim(s, " ")`. -/
def trimSpaces (s : List Char) : List Char := (s.dropWhile (· == ' ')).rdropWhile (· == ' ')

/-- `strings.EqualFold(s, api.PolicyPortAny)`. -/
def equalFoldAny (s : List Char) : Bool := s.map Char.toLower == policyPortAny

/-- `strings.FieldsFunc` cutting at commas and spaces: the non-empty pieces between them. -/
def portFields (s : List Char) : List (List Char) :=
  (s.splitOnP fun c => c == ',' || c == ' ').filter fun f => !f.isEmpty

/-- The variables of the field loop: `tcpAny`, `udpAny`, `icmp` and `ports`. -/
structure PortsScan where
  tcpAny : Bool
  udpAny : Bool
  icmp : Bool
  ports : List PortRange
  deriving DecidableEq, Repr

def PortsScan.init : PortsScan := ⟨false, false, false, []⟩

def PortsScan.addRange (scan : PortsScan) (proto : Int) (f : List Char) :
    Except PortsError PortsScan :=
  match parseRange f with
  | .error e => .error e
  | .ok (low, high) =>
    if low < 0 ∨ low > 65535 ∨ high < 0 ∨ high > 65535 ∨ low > high then
      .error .invalidPortsFormat
    else .ok { scan with ports := scan.ports ++ [⟨proto, low, high⟩] }

def scanField (scan : PortsScan) (f : List Char) : Except PortsError PortsScan :=
  if "tcp/".toList.isPrefixOf f || "TCP/".toList.isPrefixOf f then
    if equalFoldAny (f.drop 4) then .ok { scan with tcpAny := true }
    else scan.addRange ipprotoTcp (f.drop 4)
  else if "udp/".toList.isPrefixOf f || "UDP/".toList.isPrefixOf f then
    if equalFoldAny (f.drop 4) then .ok { scan with udpAny := true }
    else scan.addRange ipprotoUdp (f.drop 4)
  else if f = "icmp".toList then .ok { scan with icmp := true }
  else if equalFoldAny f then .ok { scan with tcpAny := true, udpAny := true }
  else scan.addRange ipprotoTcp f

def PortsScan.kept (scan : PortsScan) : List PortRange :=
  scan.ports.filter fun port =>
    !(scan.tcpAny && port.proto == ipprotoTcp) && !(scan.udpAny && port.proto == ipprotoUdp)

/-- `sort.Sort(&sorter)`. `portRangeLess` orders ranges totally, and two ranges neither of which
is less are equal, so every sort gives this list. -/
def sortRanges (ports : List PortRange) : List PortRange :=
  ports.mergeSort fun a b => !portRangeLess b a

def rangeText (port : PortRange) : Option (List Char) :=
  let proto? : Option (List Char) :=
    if port.proto = ipprotoTcp then some "tcp".toList
    else if port.proto = ipprotoUdp then some "udp".toList
    else none
  proto?.map fun proto =>
    if port.low = port.high then proto ++ '/' :: Decimal.itoa port.low
    else proto ++ '/' :: (Decimal.itoa port.low ++ '-' :: Decimal.itoa port.high)

def PortsScan.anyTexts (scan : PortsScan) : List (List Char) :=
  if scan.tcpAny && scan.udpAny then [policyPortAny]
  else if scan.tcpAny then ["tcp/".toList ++ policyPortAny]
  else if scan.udpAny then ["udp/".toList ++ policyPortAny]
  else []

def PortsScan.texts (scan : PortsScan) : List (List Char) :=
  (if scan.icmp then ["icmp".toList] else []) ++ scan.anyTexts ++
    (sortRanges scan.kept).filterMap rangeText

def normalizePorts (s : List Char) : Except PortsError (List Char) :=
  let s := trimSpaces s
  if s.length = 0 ∨ equalFoldAny s then .ok policyPortAny
  else
    match (portFields s).foldlM scanField PortsScan.init with
    | .error e => .error e
    | .ok scan => .ok ([','].intercalate scan.texts)

/-! ### The ranges the loop records -/

/-- A range the field loop accepts: of TCP or UDP, with `0 ≤ low ≤ high ≤ 65535`. -/
def PortRange.Valid (port : PortRange) : Prop :=
  (port.proto = ipprotoTcp ∨ port.proto = ipprotoUdp) ∧
    0 ≤ port.low ∧ port.low ≤ port.high ∧ port.high ≤ 65535

/-- What the field loop keeps true of `ports`. -/
def PortsScan.Ranged (scan : PortsScan) : Prop := ∀ port ∈ scan.ports, port.Valid

theorem PortsScan.init_ranged : PortsScan.init.Ranged := fun _ none => absurd none List.not_mem_nil

theorem PortsScan.Ranged.addRange {scan scan' : PortsScan} {proto : Int} {f : List Char}
    (ranged : scan.Ranged) (tcpOrUdp : proto = ipprotoTcp ∨ proto = ipprotoUdp)
    (added : scan.addRange proto f = .ok scan') : scan'.Ranged := by
  unfold PortsScan.addRange at added
  split at added
  · cases added
  · next low high parsed =>
    split_ifs at added with bad
    cases added
    intro port mem
    rcases List.mem_append.mp mem with old | new
    · exact ranged port old
    · rw [List.mem_singleton] at new
      subst new
      show (proto = ipprotoTcp ∨ proto = ipprotoUdp) ∧ 0 ≤ low ∧ low ≤ high ∧ high ≤ 65535
      exact ⟨tcpOrUdp, by omega, by omega, by omega⟩

/-- One field keeps every recorded range of TCP or UDP and in bounds. -/
theorem PortsScan.Ranged.scanField {scan scan' : PortsScan} {f : List Char} (ranged : scan.Ranged)
    (scanned : scanField scan f = .ok scan') : scan'.Ranged := by
  unfold MicroSegment.Controller.scanField at scanned
  split_ifs at scanned
  · cases scanned
    exact ranged
  · exact ranged.addRange (.inl rfl) scanned
  · cases scanned
    exact ranged
  · exact ranged.addRange (.inr rfl) scanned
  · cases scanned
    exact ranged
  · cases scanned
    exact ranged
  · exact ranged.addRange (.inl rfl) scanned

theorem PortsScan.Ranged.foldlM {scan : PortsScan} (ranged : scan.Ranged) {fs : List (List Char)}
    {scan' : PortsScan} (run : fs.foldlM MicroSegment.Controller.scanField scan = .ok scan') :
    scan'.Ranged := by
  induction fs generalizing scan with
  | nil =>
    cases run
    exact ranged
  | cons f fs ih =>
    rw [List.foldlM_cons] at run
    cases scanned : MicroSegment.Controller.scanField scan f with
    | error e =>
      rw [scanned] at run
      cases run
    | ok next =>
      rw [scanned] at run
      exact ih (ranged.scanField scanned) run

theorem isUpper_of_isDigit {c : Char} (digit : c.isDigit = true) : c.isUpper = false := by
  simp [Char.isDigit, Char.isUpper, UInt32.le_iff_toNat_le] at *
  omega

theorem itoa_of_nonneg {v : Int} (nonneg : 0 ≤ v) : Decimal.itoa v = Nat.toDigits 10 v.toNat := by
  unfold Decimal.itoa
  rw [if_neg (by omega)]

theorem isDigit_of_mem_itoa {v : Int} (nonneg : 0 ≤ v) {c : Char} (mem : c ∈ Decimal.itoa v) :
    c.isDigit = true := by
  rw [itoa_of_nonneg nonneg] at mem
  exact Nat.isDigit_of_mem_toDigits (by decide) (by decide) mem

theorem atoi_itoa {v : Int} (nonneg : 0 ≤ v) (small : v ≤ 65535) : atoi (Decimal.itoa v) = .ok v := by
  unfold atoi
  rw [itoa_of_nonneg nonneg, Decimal.atoi_toDigits (by omega), Int.toNat_of_nonneg nonneg]

theorem parseRange_itoa {v : Int} (nonneg : 0 ≤ v) (small : v ≤ 65535) :
    parseRange (Decimal.itoa v) = .ok (v, v) := by
  have noDash : '-' ∉ Decimal.itoa v := fun mem =>
    absurd (isDigit_of_mem_itoa nonneg mem) (by decide)
  unfold parseRange
  rw [List.idxOf_eq_length noDash, if_neg (Nat.lt_irrefl _), atoi_itoa nonneg small]

theorem parseRange_itoa_pair {lo hi : Int} (nonneg : 0 ≤ lo) (below : lo ≤ 65535) (nonneg' : 0 ≤ hi)
    (below' : hi ≤ 65535) :
    parseRange (Decimal.itoa lo ++ '-' :: Decimal.itoa hi) = .ok (lo, hi) := by
  have noDash : '-' ∉ Decimal.itoa lo := fun mem =>
    absurd (isDigit_of_mem_itoa nonneg mem) (by decide)
  have dash : (Decimal.itoa lo ++ '-' :: Decimal.itoa hi).idxOf '-' = (Decimal.itoa lo).length := by
    rw [List.idxOf_append, if_neg noDash, List.idxOf_cons_self, Nat.zero_add]
  have after : (Decimal.itoa lo ++ '-' :: Decimal.itoa hi).drop ((Decimal.itoa lo).length + 1) =
      Decimal.itoa hi := by
    rw [← List.singleton_append, ← List.append_assoc, List.drop_left' (by simp)]
  unfold parseRange
  dsimp only
  rw [dash, if_pos (by simp), List.take_left' rfl, after, atoi_itoa nonneg below,
    atoi_itoa nonneg' below']

def portBody (port : PortRange) : List Char :=
  if port.low = port.high then Decimal.itoa port.low
  else Decimal.itoa port.low ++ '-' :: Decimal.itoa port.high

theorem rangeText_tcp {port : PortRange} (tcp : port.proto = ipprotoTcp) :
    rangeText port = some ("tcp/".toList ++ portBody port) := by
  unfold rangeText portBody
  rw [if_pos tcp]
  split_ifs <;> rfl

theorem rangeText_udp {port : PortRange} (udp : port.proto = ipprotoUdp) :
    rangeText port = some ("udp/".toList ++ portBody port) := by
  unfold rangeText portBody
  rw [if_neg (by rw [udp]; decide), if_pos udp]
  split_ifs <;> rfl

section valid

variable {port : PortRange} (valid : port.Valid)
include valid

theorem PortRange.Valid.mem_portBody {c : Char} (mem : c ∈ portBody port) :
    c.isDigit = true ∨ c = '-' := by
  obtain ⟨-, nonneg, ordered, small⟩ := valid
  unfold portBody at mem
  split_ifs at mem
  · exact .inl (isDigit_of_mem_itoa nonneg mem)
  · rcases List.mem_append.mp mem with low | dashOrHigh
    · exact .inl (isDigit_of_mem_itoa nonneg low)
    · rcases List.mem_cons.mp dashOrHigh with dash | high
      · exact .inr dash
      · exact .inl (isDigit_of_mem_itoa (by omega) high)

theorem PortRange.Valid.parseRange_portBody :
    parseRange (portBody port) = .ok (port.low, port.high) := by
  obtain ⟨-, nonneg, ordered, small⟩ := valid
  unfold portBody
  split_ifs with same
  · rw [← same, parseRange_itoa nonneg (by omega)]
  · exact parseRange_itoa_pair nonneg (by omega) (by omega) small

theorem PortRange.Valid.equalFoldAny_portBody : equalFoldAny (portBody port) = false := by
  cases folds : equalFoldAny (portBody port) with
  | false => rfl
  | true =>
    unfold equalFoldAny at folds
    have lowered : 'a' ∈ (portBody port).map Char.toLower := by
      rw [eq_of_beq folds]
      decide
    obtain ⟨c, mem, lower⟩ := List.mem_map.mp lowered
    rcases valid.mem_portBody mem with digit | rfl
    · rw [Char.toLower_eq_of_not_isUpper (by simp [isUpper_of_isDigit digit])] at lower
      exact absurd (lower ▸ digit) (by decide)
    · exact absurd lower (by decide)

theorem PortRange.Valid.addRange {scan : PortsScan} {f : List Char}
    (parsed : parseRange f = .ok (port.low, port.high)) :
    scan.addRange port.proto f = .ok { scan with ports := scan.ports ++ [port] } := by
  obtain ⟨-, nonneg, ordered, small⟩ := valid
  unfold PortsScan.addRange
  rw [parsed]
  dsimp only
  rw [if_neg (by omega)]

theorem PortRange.Valid.scanField_rangeText (scan : PortsScan) :
    ∃ text, rangeText port = some text ∧
      scanField scan text = .ok { scan with ports := scan.ports ++ [port] } := by
  rcases valid.1 with tcp | udp
  · refine ⟨_, rangeText_tcp tcp, ?_⟩
    have body : ("tcp/".toList ++ portBody port).drop 4 = portBody port := List.drop_left' rfl
    unfold MicroSegment.Controller.scanField
    rw [if_pos (by simp), body, valid.equalFoldAny_portBody, if_neg Bool.false_ne_true, ← tcp,
      valid.addRange valid.parseRange_portBody]
  · refine ⟨_, rangeText_udp udp, ?_⟩
    have notTcp : ("tcp/".toList.isPrefixOf ("udp/".toList ++ portBody port) ||
        "TCP/".toList.isPrefixOf ("udp/".toList ++ portBody port)) = false := rfl
    have body : ("udp/".toList ++ portBody port).drop 4 = portBody port := List.drop_left' rfl
    unfold MicroSegment.Controller.scanField
    rw [if_neg (Bool.eq_false_iff.mp notTcp), if_pos (by simp), body,
      valid.equalFoldAny_portBody, if_neg Bool.false_ne_true, ← udp,
      valid.addRange valid.parseRange_portBody]

end valid

theorem foldlM_rangeTexts {ports : List PortRange} (valid : ∀ port ∈ ports, port.Valid)
    (scan : PortsScan) :
    (ports.filterMap rangeText).foldlM scanField scan =
      .ok { scan with ports := scan.ports ++ ports } := by
  induction ports generalizing scan with
  | nil => simp only [List.filterMap_nil, List.foldlM_nil, List.append_nil]; rfl
  | cons port ports ih =>
    obtain ⟨text, written, read⟩ := (valid port List.mem_cons_self).scanField_rangeText scan
    rw [List.filterMap_cons_some written, List.foldlM_cons, read]
    refine (ih (fun p mem => valid p (List.mem_cons_of_mem port mem)) _).trans ?_
    simp

/-! ### The written string reads back -/

def PortsScan.normal (scan : PortsScan) : PortsScan := { scan with ports := sortRanges scan.kept }

def PortsScan.write (scan : PortsScan) : List Char := [','].intercalate scan.texts

theorem portRangeLess_eq_true {a b : PortRange} :
    portRangeLess a b = true ↔
      a.proto < b.proto ∨ a.proto = b.proto ∧ (a.low < b.low ∨ a.low = b.low ∧ a.high < b.high) := by
  unfold portRangeLess
  split_ifs <;> simp <;> omega

theorem sortRanges_pairwise (ports : List PortRange) :
    (sortRanges ports).Pairwise fun a b => !portRangeLess b a := by
  apply List.pairwise_mergeSort
  · intro a b c ab bc
    simp only [Bool.not_eq_true', Bool.eq_false_iff, ne_eq, portRangeLess_eq_true] at ab bc ⊢
    omega
  · intro a b
    simp only [Bool.or_eq_true, Bool.not_eq_true', Bool.eq_false_iff, ne_eq, portRangeLess_eq_true]
    omega

theorem sortRanges_sortRanges (ports : List PortRange) :
    sortRanges (sortRanges ports) = sortRanges ports :=
  List.mergeSort_of_pairwise (sortRanges_pairwise ports)

theorem sortRanges_eq_insertionSort (ports : List PortRange) :
    sortRanges ports = ports.insertionSort fun a b => portRangeLess b a = false := by
  let r : PortRange → PortRange → Prop := fun a b => portRangeLess b a = false
  have : Std.Total r := ⟨fun a b => by
    simp only [r, Bool.eq_false_iff, ne_eq, portRangeLess_eq_true]
    omega⟩
  have : IsTrans PortRange r := ⟨fun a b c ab bc => by
    simp only [r, Bool.eq_false_iff, ne_eq, portRangeLess_eq_true] at ab bc ⊢
    omega⟩
  have : Std.Antisymm r := ⟨fun a b ab ba => by
    simp only [r, Bool.eq_false_iff, ne_eq, portRangeLess_eq_true] at ab ba
    obtain ⟨pa, la, ha⟩ := a
    obtain ⟨pb, lb, hb⟩ := b
    simp only at ab ba
    simp only [PortRange.mk.injEq]
    omega⟩
  have sorted := List.mergeSort_eq_insertionSort r ports
  simpa [r, sortRanges] using sorted

theorem PortsScan.write_eq_insertionSort (scan : PortsScan) :
    scan.write = [','].intercalate ((if scan.icmp then ["icmp".toList] else []) ++ scan.anyTexts ++
      (scan.kept.insertionSort fun a b => portRangeLess b a = false).filterMap rangeText) := by
  rw [PortsScan.write, PortsScan.texts, sortRanges_eq_insertionSort]

theorem mem_sortRanges_kept {scan : PortsScan} {port : PortRange} :
    port ∈ sortRanges scan.kept ↔
      port ∈ scan.ports ∧ ¬(scan.tcpAny = true ∧ port.proto = ipprotoTcp) ∧
        ¬(scan.udpAny = true ∧ port.proto = ipprotoUdp) := by
  rw [sortRanges, (List.mergeSort_perm _ _).mem_iff, PortsScan.kept, List.mem_filter]
  cases scan.tcpAny <;> cases scan.udpAny <;> simp

theorem PortsScan.Ranged.normal {scan : PortsScan} (ranged : scan.Ranged) : scan.normal.Ranged :=
  fun port mem => ranged port (mem_sortRanges_kept.mp mem).1

theorem PortsScan.kept_normal (scan : PortsScan) : scan.normal.kept = sortRanges scan.kept := by
  unfold PortsScan.kept
  refine List.filter_eq_self.mpr fun port mem => ?_
  obtain ⟨-, notTcp, notUdp⟩ := mem_sortRanges_kept.mp mem
  show (!(scan.tcpAny && port.proto == ipprotoTcp) && !(scan.udpAny && port.proto == ipprotoUdp)) =
    true
  cases tcpAny : scan.tcpAny <;> cases udpAny : scan.udpAny <;> simp_all

theorem PortsScan.texts_normal (scan : PortsScan) : scan.normal.texts = scan.texts := by
  unfold PortsScan.texts
  rw [kept_normal, sortRanges_sortRanges]
  rfl

theorem PortsScan.write_normal (scan : PortsScan) : scan.normal.write = scan.write := by
  rw [PortsScan.write, texts_normal, PortsScan.write]

theorem foldlM_flagTexts (scan : PortsScan) :
    ((if scan.icmp then ["icmp".toList] else []) ++ scan.anyTexts).foldlM scanField
      PortsScan.init = .ok { scan with ports := [] } := by
  obtain ⟨tcpAny, udpAny, icmp, ports⟩ := scan
  cases icmp <;> cases tcpAny <;> cases udpAny <;> rfl

theorem PortsScan.Ranged.foldlM_texts {scan : PortsScan} (ranged : scan.Ranged) :
    scan.texts.foldlM MicroSegment.Controller.scanField PortsScan.init = .ok scan.normal := by
  unfold PortsScan.texts
  rw [List.foldlM_append, foldlM_flagTexts]
  exact foldlM_rangeTexts ranged.normal _

def plainChar (c : Char) : Bool := !c.isUpper && c != ',' && c != ' '

def plainField (f : List Char) : Bool := !f.isEmpty && f.all plainChar

theorem plainChar_of_isDigit {c : Char} (digit : c.isDigit = true) : plainChar c = true := by
  have notComma : c ≠ ',' := fun same => absurd (same ▸ digit) (by decide)
  have notSpace : c ≠ ' ' := fun same => absurd (same ▸ digit) (by decide)
  simp [plainChar, isUpper_of_isDigit digit, notComma, notSpace]

theorem PortRange.Valid.plainField_rangeText {port : PortRange} (valid : port.Valid)
    {text : List Char} (written : rangeText port = some text) : plainField text = true := by
  have body : (portBody port).all plainChar = true := List.all_eq_true.mpr fun c mem => by
    rcases valid.mem_portBody mem with digit | rfl
    · exact plainChar_of_isDigit digit
    · decide
  rcases valid.1 with tcp | udp
  · rw [rangeText_tcp tcp, Option.some_inj] at written
    subst written
    simp only [plainField, List.all_append, body, Bool.and_true]
    rfl
  · rw [rangeText_udp udp, Option.some_inj] at written
    subst written
    simp only [plainField, List.all_append, body, Bool.and_true]
    rfl

theorem PortsScan.Ranged.plainField_texts {scan : PortsScan} (ranged : scan.Ranged) :
    ∀ f ∈ scan.texts, plainField f = true := by
  intro f mem
  unfold PortsScan.texts at mem
  rcases List.mem_append.mp mem with flags | ranges
  · rcases List.mem_append.mp flags with icmp | anyText
    · split_ifs at icmp
      · rw [List.mem_singleton.mp icmp]
        decide
      · exact absurd icmp List.not_mem_nil
    · unfold PortsScan.anyTexts at anyText
      split_ifs at anyText <;> simp only [List.mem_singleton, List.not_mem_nil] at anyText <;>
        subst anyText <;> decide
  · obtain ⟨port, sorted, written⟩ := List.mem_filterMap.mp ranges
    exact (ranged.normal port sorted).plainField_rangeText written

theorem plainField_mem {f : List Char} (plain : plainField f = true) {c : Char} (mem : c ∈ f) :
    c.isUpper = false ∧ c ≠ ',' ∧ c ≠ ' ' := by
  simp only [plainField, plainChar, Bool.and_eq_true, List.all_eq_true] at plain
  have letter := plain.2 c mem
  simp only [Bool.not_eq_true', bne_iff_ne, ne_eq] at letter
  exact ⟨letter.1.1, letter.1.2, letter.2⟩

theorem plainField_splitOnP {f : List Char} (plain : plainField f = true) :
    ∀ c ∈ f, (c == ',' || c == ' ') = false := by
  intro c mem
  obtain ⟨-, notComma, notSpace⟩ := plainField_mem plain mem
  simp [notComma, notSpace]

theorem portFields_plainField {f : List Char} (plain : plainField f = true) :
    portFields f = [f] := by
  have nonempty : f.isEmpty = false := by
    simp only [plainField, Bool.and_eq_true, Bool.not_eq_true'] at plain
    exact plain.1
  rw [portFields, List.splitOnP_eq_singleton (plainField_splitOnP plain)]
  simp [nonempty]

theorem portFields_plainField_comma {f : List Char} (plain : plainField f = true)
    (rest : List Char) : portFields (f ++ ',' :: rest) = f :: portFields rest := by
  have nonempty : f.isEmpty = false := by
    simp only [plainField, Bool.and_eq_true, Bool.not_eq_true'] at plain
    exact plain.1
  rw [portFields, List.splitOnP_append_cons_of_forall_mem (plainField_splitOnP plain) ',' rfl,
    List.filter_cons_of_pos (by simp [nonempty]), portFields]

theorem portFields_intercalate :
    ∀ {fs : List (List Char)}, (∀ f ∈ fs, plainField f = true) →
      portFields ([','].intercalate fs) = fs
  | [], _ => rfl
  | [f], plain => by
    rw [List.intercalate_singleton, portFields_plainField (plain f List.mem_cons_self)]
  | f :: g :: fs, plain => by
    rw [List.intercalate_cons_cons, List.append_assoc, List.singleton_append,
      portFields_plainField_comma (plain f List.mem_cons_self),
      portFields_intercalate fun h mem => plain h (List.mem_cons_of_mem f mem)]

theorem plainChars_intercalate :
    ∀ {fs : List (List Char)}, (∀ f ∈ fs, plainField f = true) →
      ∀ c ∈ [','].intercalate fs, c.isUpper = false ∧ c ≠ ' '
  | [], _, _, mem => absurd mem List.not_mem_nil
  | [f], plain, c, mem => by
    rw [List.intercalate_singleton] at mem
    obtain ⟨upper, -, space⟩ := plainField_mem (plain f List.mem_cons_self) mem
    exact ⟨upper, space⟩
  | f :: g :: fs, plain, c, mem => by
    rw [List.intercalate_cons_cons, List.mem_append, List.mem_append] at mem
    rcases mem with (first | comma) | rest
    · obtain ⟨upper, -, space⟩ := plainField_mem (plain f List.mem_cons_self) first
      exact ⟨upper, space⟩
    · rw [List.mem_singleton.mp comma]
      decide
    · exact plainChars_intercalate (fun h mem => plain h (List.mem_cons_of_mem f mem)) c rest

theorem trimSpaces_of_not_mem {s : List Char} (noSpace : ' ' ∉ s) : trimSpaces s = s := by
  have front : s.dropWhile (· == ' ') = s := List.dropWhile_eq_self_iff.mpr
    fun nonempty space => noSpace (eq_of_beq space ▸ List.getElem_mem nonempty)
  unfold trimSpaces
  rw [front]
  exact List.rdropWhile_eq_self_iff.mpr
    fun nonempty space => noSpace (eq_of_beq space ▸ List.getLast_mem nonempty)

theorem equalFoldAny_iff {s : List Char} (noUpper : ∀ c ∈ s, c.isUpper = false) :
    equalFoldAny s = true ↔ s = policyPortAny := by
  have lowered : s.map Char.toLower = s :=
    (List.map_congr_left fun c mem =>
      Char.toLower_eq_of_not_isUpper (by simp [noUpper c mem])).trans (List.map_id' s)
  unfold equalFoldAny
  rw [lowered, beq_iff_eq]

@[simp] theorem sortRanges_nil : sortRanges [] = [] := List.mergeSort_nil

def PortsScan.anyPorts : PortsScan := ⟨true, true, false, []⟩

theorem PortsScan.anyPorts_write : PortsScan.anyPorts.write = policyPortAny := by
  unfold PortsScan.write PortsScan.texts
  rw [show PortsScan.anyPorts.kept = [] from rfl, sortRanges_nil]
  rfl

def portsScan (s : List Char) : Except PortsError PortsScan :=
  let s := trimSpaces s
  if s.length = 0 ∨ equalFoldAny s then .ok PortsScan.anyPorts
  else (portFields s).foldlM scanField PortsScan.init

theorem normalizePorts_eq (s : List Char) :
    normalizePorts s = (portsScan s).map PortsScan.write := by
  unfold normalizePorts portsScan
  dsimp only
  split_ifs
  · exact congrArg Except.ok PortsScan.anyPorts_write.symm
  · cases (portFields (trimSpaces s)).foldlM scanField PortsScan.init <;> rfl

theorem portsScan_ranged {s : List Char} {scan : PortsScan} (read : portsScan s = .ok scan) :
    scan.Ranged := by
  unfold portsScan at read
  dsimp only at read
  split_ifs at read
  · cases read
    exact fun _ none => absurd none List.not_mem_nil
  · exact PortsScan.init_ranged.foldlM read

theorem PortsScan.Ranged.portsScan_write {scan : PortsScan} (ranged : scan.Ranged)
    (written : scan.write ≠ []) : portsScan scan.write = .ok scan.normal := by
  have fields : portFields scan.write = scan.texts := portFields_intercalate ranged.plainField_texts
  have chars : ∀ c ∈ scan.write, c.isUpper = false ∧ c ≠ ' ' :=
    plainChars_intercalate ranged.plainField_texts
  unfold portsScan
  dsimp only
  rw [trimSpaces_of_not_mem fun mem => (chars ' ' mem).2 rfl]
  by_cases folds : equalFoldAny scan.write = true
  · -- the string written is `any`: its one field reads back as both `any` flags
    have single : scan.texts = [policyPortAny] := by
      rw [← fields, (equalFoldAny_iff fun c mem => (chars c mem).1).mp folds]
      rfl
    have read := ranged.foldlM_texts
    rw [single] at read
    rw [if_pos (.inr folds)]
    exact read
  · rw [if_neg (not_or.mpr ⟨fun empty => written (List.length_eq_zero_iff.mp empty), folds⟩),
      fields]
    exact ranged.foldlM_texts

/-! ### What a port string stands for -/

/-- The protocols all of whose ports a flag admits. -/
def PortsScan.Flags (scan : PortsScan) (proto : Int) : Prop :=
  scan.icmp = true ∧ proto = ipprotoIcmp ∨ scan.tcpAny = true ∧ proto = ipprotoTcp ∨
    scan.udpAny = true ∧ proto = ipprotoUdp

def PortsScan.denote (scan : PortsScan) : Set (Int × Int) :=
  {pp | 0 ≤ pp.2 ∧ pp.2 ≤ 65535 ∧
    (scan.Flags pp.1 ∨ ∃ port ∈ scan.ports, port.proto = pp.1 ∧ port.low ≤ pp.2 ∧ pp.2 ≤ port.high)}

def portsMeaning (s : List Char) : Option (Set (Int × Int)) :=
  (portsScan s).toOption.map PortsScan.denote

theorem PortsScan.denote_normal (scan : PortsScan) : scan.normal.denote = scan.denote := by
  ext ⟨proto, n⟩
  simp only [PortsScan.denote, Set.mem_ofPred_eq]
  refine and_congr_right fun _ => and_congr_right fun _ => ?_
  constructor
  · rintro (flagged | ⟨port, sorted, covers⟩)
    · exact .inl flagged
    · exact .inr ⟨port, (mem_sortRanges_kept.mp sorted).1, covers⟩
  · rintro (flagged | ⟨port, mem, same, covers⟩)
    · exact .inl flagged
    · by_cases tcp : scan.tcpAny = true ∧ port.proto = ipprotoTcp
      · -- a range that `tcp/any` drops lies within it
        exact .inl (.inr (.inl ⟨tcp.1, same.symm.trans tcp.2⟩))
      · by_cases udp : scan.udpAny = true ∧ port.proto = ipprotoUdp
        · exact .inl (.inr (.inr ⟨udp.1, same.symm.trans udp.2⟩))
        · exact .inr ⟨port, mem_sortRanges_kept.mpr ⟨mem, tcp, udp⟩, same, covers⟩

theorem normalizePorts_stable {s r : List Char} (accepted : normalizePorts s = .ok r)
    (written : r ≠ []) :
    normalizePorts r = .ok r ∧ portsMeaning r = portsMeaning s ∧
      ∀ scan, portsScan r = .ok scan → scan.Ranged := by
  rw [normalizePorts_eq] at accepted
  cases read : portsScan s with
  | error e =>
    rw [read] at accepted
    cases accepted
  | ok scan =>
    rw [read] at accepted
    obtain rfl : scan.write = r := Except.ok.inj accepted
    have ranged := portsScan_ranged read
    have reread := ranged.portsScan_write written
    refine ⟨?_, ?_, ?_⟩
    · rw [normalizePorts_eq, reread]
      exact congrArg Except.ok scan.write_normal
    · rw [portsMeaning, portsMeaning, reread, read]
      exact congrArg some scan.denote_normal
    · intro scan' read'
      rw [reread] at read'
      cases read'
      exact ranged.normal

def samplePorts : List Char := ['8', '0', ',', ' ', '8', '0', '8', '0', ',', ' ', '8', '5', '0', '0', '-', '8', '5', '0', '8', ',', ' ', 't', 'c', 'p', '/', '4', '4', '3', ',', ' ', 'u', 'd', 'p', '/', '5', '3']

def samplePortsWritten : List Char := ['t', 'c', 'p', '/', '8', '0', ',', 't', 'c', 'p', '/', '4', '4', '3', ',', 't', 'c', 'p', '/', '8', '0', '8', '0', ',', 't', 'c', 'p', '/', '8', '5', '0', '0', '-', '8', '5', '0', '8', ',', 'u', 'd', 'p', '/', '5', '3']

theorem normalizePorts_samplePorts_stable :
    normalizePorts samplePorts = .ok samplePortsWritten ∧ samplePortsWritten ≠ [] ∧
      (normalizePorts samplePortsWritten = .ok samplePortsWritten ∧
        portsMeaning samplePortsWritten = portsMeaning samplePorts ∧
        ∀ scan, portsScan samplePortsWritten = .ok scan → scan.Ranged) := by
  have accepted : normalizePorts samplePorts = .ok samplePortsWritten := by
    rw [normalizePorts_eq, funext PortsScan.write_eq_insertionSort]
    decide
  exact ⟨accepted, by decide, normalizePorts_stable accepted (by decide)⟩

/-- A string of separators alone is accepted and written as the empty string, which stands for
every port: the output is not stable and does not mean what the input meant. -/
theorem normalizePorts_comma :
    normalizePorts [','] = .ok [] ∧ normalizePorts [] = .ok policyPortAny ∧
      portsMeaning [','] ≠ portsMeaning [] := by
  have scanned : portsScan [','] = .ok PortsScan.init := rfl
  have blank : PortsScan.init.write = [] := by
    unfold PortsScan.write PortsScan.texts
    rw [show PortsScan.init.kept = [] from rfl, sortRanges_nil]
    rfl
  refine ⟨by rw [normalizePorts_eq, scanned]; exact congrArg Except.ok blank, rfl, ?_⟩
  intro same
  have denotes : PortsScan.init.denote = PortsScan.anyPorts.denote := Option.some_inj.mp same
  -- TCP port 0 is meant by the empty string and not by `,`
  have admitted : ((ipprotoTcp, 0) : Int × Int) ∈ PortsScan.anyPorts.denote :=
    ⟨le_refl 0, by decide, .inl (.inr (.inl ⟨rfl, rfl⟩))⟩
  rw [← denotes] at admitted
  obtain ⟨-, -, (⟨flag, -⟩ | ⟨flag, -⟩ | ⟨flag, -⟩) | ⟨port, none, -⟩⟩ := admitted
  · cases flag
  · cases flag
  · cases flag
  · exact List.not_mem_nil none

end MicroSegment.Controller
