import MicroSegment.Lib.Probe

/-!
# Layer 2-4 parsing of a captured frame (`dp/dpi/dpi_packet.c`)

`dpi_parse_packet` and the functions it calls fill in the offsets of a `dpi_packet_t` from the
headers of a frame of `cap_len` bytes. The frame is the memory `mem` from `p->pkt` on: a read
past the capture returns whatever the buffer holds there, and every function is a `Probe` that
logs the offsets it reads. A `uint16_t` or `uint32_t` assignment reduces its value (`u16`,
`u32`); multi-byte fields are loaded in the host's little-endian order and turned around by
`ntohs`. `-1` is `none` (or `Parsed.bad`): the caller drops such a packet whatever fields were
set. Fragment reassembly (`dpi_ip_defrag`, `dpi_ipv6_defrag`) is left out: a fragment ends the
model's parse in `Parsed.defrag`.
-/

namespace MicroSegment.Dpi

def ethHdrLen : Nat := 14
def ipHdrLen : Nat := 20
/-- `sizeof(struct ip6_hdr)`. -/
def ip6HdrLen : Nat := 40
def tcpHdrLen : Nat := 20
def udpHdrLen : Nat := 8
def icmpHdrLen : Nat := 8
/-- `sizeof(struct icmp6_hdr)`. -/
def icmp6HdrLen : Nat := 8

def ethPIp : Nat := 0x0800
def ethPIpv6 : Nat := 0x86dd

def ipprotoHopopts : Nat := 0
def ipprotoIcmp : Nat := 1
def ipprotoTcp : Nat := 6
def ipprotoUdp : Nat := 17
def ipprotoRouting : Nat := 43
def ipprotoFragment : Nat := 44
def ipprotoAh : Nat := 51
def ipprotoIcmpv6 : Nat := 58
def ipprotoDstopts : Nat := 60

/-- `IP_OFFMASK | IP_MF`: the bits of `frag_off` that mark a fragment. -/
def ipFragBits : Nat := 0x3fff

def dpiPktFlagSackok : Nat := 0x1
def dpiPktFlagTcpTs : Nat := 0x2
def dpiPktFlagClient : Nat := 0x4

def thFin : Nat := 0x01
def thSyn : Nat := 0x02
def thRst : Nat := 0x04
def thPush : Nat := 0x08
def thAck : Nat := 0x10
def thUrg : Nat := 0x20

def tcpFlagMask : Nat := thPush ||| thUrg ||| thFin ||| thAck ||| thSyn ||| thRst

/-- `tcp_bad_flag_list`, whose entries `tcp_bad_flag_mask` holds. -/
def tcpBadFlagList : List Nat :=
  [0, thUrg, thFin, thPush, thPush ||| thFin, thPush ||| thUrg, thSyn ||| thFin,
    thPush ||| thUrg ||| thFin, thPush ||| thUrg ||| thFin ||| thAck ||| thSyn,
    thPush ||| thUrg ||| thFin ||| thAck ||| thSyn ||| thRst]

def tcpOptEol : Nat := 0
def tcpOptNop : Nat := 1
def tcpOptMss : Nat := 2
def tcpOptWscale : Nat := 3
def tcpOptSackok : Nat := 4
def tcpOptSack : Nat := 5
def tcpOptTimestamp : Nat := 8
def tcpOptMax : Nat := 27

/-- `tcp_opt_len`, indexed by the option types below `TCP_OPT_MAX`. -/
def tcpOptLenTable : List Nat :=
  [1, 1, 4, 3, 2, 0, 6, 6, 10, 2, 3, 6, 6, 6, 3, 0, 0, 0, 3, 18, 0, 0, 0, 0, 0, 0, 0]

/-- `type < TCP_OPT_MAX ? tcp_opt_len[type] : 0`. -/
def optLenOf (type : Nat) : Nat :=
  if type < tcpOptMax then tcpOptLenTable.getD type 0 else 0

def icmpEchoreply : Nat := 0
def icmpEcho : Nat := 8
def icmpTimestamp : Nat := 13
def icmpTimestampreply : Nat := 14
def icmpInfoRequest : Nat := 15
def icmpInfoReply : Nat := 16
def icmpAddress : Nat := 17
def icmpAddressreply : Nat := 18
def icmp6EchoReply : Nat := 129

/-! ### Machine words and loads -/

/-- A `uint16_t` assignment: the value modulo `2^16`. -/
def u16 (n : Int) : Nat := (n % 65536).toNat

/-- A `uint32_t` assignment: the value modulo `2^32`. -/
def u32 (n : Int) : Nat := (n % 4294967296).toNat

def ntohs (x : Nat) : Nat := x % 256 * 256 + x / 256 % 256

def loadU16 (mem : Nat → UInt8) (i : Nat) : Probe Nat := do
  let lo ← Probe.read mem i
  let hi ← Probe.read mem (i + 1)
  return lo.toNat + 256 * hi.toNat

def loadNet32 (mem : Nat → UInt8) (i : Nat) : Probe Nat := do
  let hi ← loadU16 mem i
  let lo ← loadU16 mem (i + 2)
  return ntohs hi * 65536 + ntohs lo

/-- `get_iph_len`: `ihl`, the low half of the header's first byte, in bytes. -/
def getIphLen (vihl : UInt8) : Nat := (vihl.toNat % 16) <<< 2

def ipVersion (vihl : UInt8) : Nat := vihl.toNat >>> 4

/-- `get_tcph_len`: `doff`, the high half of the TCP header's 13th byte, in bytes. -/
def getTcphLen (doff : UInt8) : Nat := (doff.toNat >>> 4) <<< 2

/-- The sum of `n` 16-bit words loaded from `ptr` on: the loops of `get_ip_cksum` and
`get_l4_cksum`. The `uint32_t` sums never wrap: there are fewer than `2^15` words. -/
def sumWords (mem : Nat → UInt8) (ptr : Nat) : Nat → Probe Nat
  | 0 => pure 0
  | n + 1 => do
    let w ← loadU16 mem ptr
    let rest ← sumWords mem (ptr + 2) n
    return w + rest

def foldCksum (sum : Nat) : Nat :=
  let sum := sum / 65536 + sum % 65536
  let sum := sum + sum / 65536
  65535 - sum % 65536

def clearU16 (mem : Nat → UInt8) (i : Nat) : Nat → UInt8 :=
  fun j => if j = i ∨ j = i + 1 then 0 else mem j

/-- `get_ip_cksum`, over the header at `l3`. -/
def getIpCksum (mem : Nat → UInt8) (l3 : Nat) : Probe Nat := do
  let vihl ← Probe.read mem l3
  let sum ← sumWords mem l3 (getIphLen vihl / 2)
  return foldCksum sum

/-- `get_l4_cksum`: the pseudo header's `sum`, then the `l4Len` bytes at `l4`. An odd last byte
is loaded as a whole word, of which `htons(0xff00)` keeps the byte at the lower address. -/
def getL4Cksum (mem : Nat → UInt8) (sum l4 l4Len : Nat) : Probe Nat := do
  let words ← sumWords mem l4 (l4Len / 2)
  let tail ← if l4Len % 2 = 1 then do
      let w ← loadU16 mem (l4 + 2 * (l4Len / 2))
      pure (w % 256)
    else pure 0
  return foldCksum (sum + words + tail)

/-- `get_l4v4_cksum`: for the IPv4 header at `iph`, the pseudo header's addresses, protocol and
`htons(l4_len)` first; `dpi_parse_icmp` passes no header. -/
def getL4v4Cksum (mem : Nat → UInt8) (iph : Option Nat) (l4 l4Len : Nat) : Probe Nat := do
  let sum ← match iph with
    | none => pure 0
    | some l3 => do
      let addrs ← sumWords mem (l3 + 12) 4
      let proto ← Probe.read mem (l3 + 9)
      pure (addrs + proto.toNat * 256 + ntohs l4Len)
  getL4Cksum mem sum l4 l4Len

/-- `get_l4v6_cksum`: the pseudo header's addresses, `htons(l4_len)` and next header first. -/
def getL4v6Cksum (mem : Nat → UInt8) (l3 ipProto l4 l4Len : Nat) : Probe Nat := do
  let addrs ← sumWords mem (l3 + 8) 16
  getL4Cksum mem (addrs + ntohs l4Len + ipProto * 256) l4 l4Len

def cksumTest (mem : Nat → UInt8) (field : Nat) (cksum : (Nat → UInt8) → Probe Nat) :
    Probe Bool := do
  let pktCksum ← loadU16 mem field
  let cksum ← cksum (clearU16 mem field)
  return (if pktCksum = 0xffff then 0 else pktCksum) = cksum

/-- A checksum that `g_io_config->enable_cksum` turns on and whose mismatch the parser only
corrects in the packet: its reads, and nothing else. -/
def cksumPass (enableCksum : Bool) (test : Probe Bool) : Probe Unit :=
  if enableCksum then discard test else pure ()

/-- A checksum that `g_io_config->enable_cksum` turns on and whose mismatch the parser refuses. -/
def cksumOk (enableCksum : Bool) (test : Probe Bool) : Probe Bool :=
  if enableCksum then test else pure true

/-! ### The packet -/

/-- The fields of `dpi_packet_t` that layer 2-4 parsing writes, with offsets from `p->pkt`:
`raw` is `(rawPtr, rawLen, rawSeq)` with `rawPtr` an offset, and `ip6Fragh` is the offset of
the IPv6 fragment header. -/
structure Pkt where
  capLen : Nat
  l3 : Nat
  l4 : Nat
  len : Nat
  ethType : Nat
  ipProto : Nat
  sport : Nat
  dport : Nat
  flags : Nat
  tcpMss : Nat
  tcpWscale : Nat
  tcpTsValue : Nat
  tcpTsEcho : Nat
  ip6Fragh : Option Nat
  rawPtr : Nat
  rawLen : Nat
  rawSeq : Nat
deriving DecidableEq, Repr

/-- What `dpi_parse_ipv4`, `dpi_parse_ipv6` and `dpi_parse_packet` end in: 0 with the packet,
-1, or a fragment handed to reassembly, where the model stops. -/
inductive Parsed
  | ok (p : Pkt)
  | bad
  | defrag (p : Pkt)
deriving DecidableEq, Repr

def Parsed.ofOption : Option Pkt → Parsed
  | some p => .ok p
  | none => .bad

def rawRest (p : Pkt) : Pkt :=
  { p with rawPtr := p.l4, rawLen := u32 (p.len - p.l4), rawSeq := 0 }

/-- The checksum of the layer-4 message at `p.l4`, over the IPv4 or the IPv6 pseudo header as
`dpi_is_ipv4` says. -/
def l4PseudoCksum (p : Pkt) (ipProto l4Len : Nat) (mem : Nat → UInt8) : Probe Nat :=
  if p.ethType = ethPIp then getL4v4Cksum mem (some p.l3) p.l4 l4Len
  else getL4v6Cksum mem p.l3 ipProto p.l4 l4Len

/-- The SACK test of `dpi_parse_tcp_options`: a SACK option of length at most 2 followed by two
zero bytes, read wherever the option stands. -/
def sackIsZero (mem : Nat → UInt8) (type len ptr : Nat) : Probe Bool :=
  if type = tcpOptSack ∧ len ≤ 2 then do
    let b2 ← Probe.read mem (ptr + 2)
    if b2 = 0 then do
      let b3 ← Probe.read mem (ptr + 3)
      return b3 = 0
    else return false
  else return false

/-- The `switch (type)` of `dpi_parse_tcp_options`: the value of a known option into the packet. -/
def tcpOptionValue (mem : Nat → UInt8) (type ptr : Nat) (p : Pkt) : Probe Pkt :=
  if type = tcpOptMss then do
    let mss ← loadU16 mem (ptr + 2)
    return { p with tcpMss := ntohs mss }
  else if type = tcpOptWscale then do
    let wscale ← Probe.read mem (ptr + 2)
    return { p with tcpWscale := wscale.toNat }
  else if type = tcpOptTimestamp then do
    let value ← loadNet32 mem (ptr + 2)
    let echo ← loadNet32 mem (ptr + 6)
    return { p with tcpTsValue := value, tcpTsEcho := echo, flags := p.flags ||| dpiPktFlagTcpTs }
  else if type = tcpOptSackok then
    return { p with flags := p.flags ||| dpiPktFlagSackok }
  else return p

/-- How one pass of the loop of `dpi_parse_tcp_options` ends. -/
inductive OptStep
  /-- `return`, with 0 (`some`) or -1 (`none`) -/
  | done (r : Option Pkt)
  /-- on to the next option: this one is `n + 1` bytes long -/
  | next (n : Nat) (p : Pkt)
deriving DecidableEq, Repr

/-- The body of the loop of `dpi_parse_tcp_options`, for the option at `ptr < stop`. -/
def tcpOption (mem : Nat → UInt8) (ptr stop : Nat) (p : Pkt) : Probe OptStep := do
  let type ← Probe.read mem ptr
  if type.toNat = tcpOptEol then return .done (some p)
  if type.toNat = tcpOptNop then return .next 0 p
  if stop ≤ ptr + 1 then return .done none
  let len ← Probe.read mem (ptr + 1)
  let optLen := optLenOf type.toNat
  if stop < ptr + optLen ∨ (1 < optLen ∧ len.toNat ≠ optLen) ∨ len.toNat < 2 then
    return .done none
  if ← sackIsZero mem type.toNat len.toNat ptr then return .done none
  let p ← tcpOptionValue mem type.toNat ptr p
  return .next (len.toNat - 1) p

/-- `dpi_parse_tcp_options`: the options from `ptr` to the header's end `stop`. -/
def dpiParseTcpOptions (mem : Nat → UInt8) (ptr stop : Nat) (p : Pkt) : Probe (Option Pkt) :=
  if ptr < stop then do
    match ← tcpOption mem ptr stop p with
    | .done r => return r
    | .next n p => dpiParseTcpOptions mem (ptr + n + 1) stop p
  else return some p
termination_by stop - ptr

theorem dpiParseTcpOptions_of_le (mem : Nat → UInt8) {ptr stop : Nat} (p : Pkt) (h : stop ≤ ptr) :
    dpiParseTcpOptions mem ptr stop p = pure (some p) := by
  rw [dpiParseTcpOptions, if_neg (by omega)]

theorem dpiParseTcpOptions_of_lt (mem : Nat → UInt8) {ptr stop : Nat} (p : Pkt) (h : ptr < stop) :
    dpiParseTcpOptions mem ptr stop p = tcpOption mem ptr stop p >>= fun
      | .done r => pure r
      | .next n p => dpiParseTcpOptions mem (ptr + n + 1) stop p := by
  rw [dpiParseTcpOptions, if_pos h]

/-- The zero-timestamp test of `dpi_parse_tcp`: a timestamp option of two zeros on an ACK
without SYN. The flags byte is read only when the option was zero. -/
def zeroTimestamp (mem : Nat → UInt8) (p : Pkt) : Probe Bool :=
  if p.flags &&& dpiPktFlagTcpTs ≠ 0 ∧ p.tcpTsValue = 0 ∧ p.tcpTsEcho = 0 then do
    let flags ← Probe.read mem (p.l4 + 13)
    return flags.toNat &&& thAck ≠ 0 ∧ flags.toNat &&& thSyn = 0
  else return false

/-- The block of `dpi_parse_tcp` for a header longer than `sizeof(struct tcphdr)`. The
small-MSS threat it reports changes nothing the parse returns. -/
def tcpOptionsCheck (mem : Nat → UInt8) (tcphLen : Nat) (p : Pkt) : Probe (Option Pkt) :=
  if tcpHdrLen < tcphLen then do
    match ← dpiParseTcpOptions mem (p.l4 + tcpHdrLen) (p.l4 + tcphLen) p with
    | none => return none
    | some p => if ← zeroTimestamp mem p then return none else return some p
  else return some p

/-- `dpi_parse_tcp`, the TCP header at `p.l4`. A checksum mismatch only rewrites the header's
checksum field, which nothing after reads. -/
def dpiParseTcp (enableCksum : Bool) (mem : Nat → UInt8) (p : Pkt) : Probe (Option Pkt) := do
  let tcpLen := u16 (p.len - p.l4)
  if tcpLen < tcpHdrLen then return none
  let tcphLen := getTcphLen (← Probe.read mem (p.l4 + 12))
  if tcphLen < tcpHdrLen ∨ tcpLen < tcphLen then return none
  let thFlags ← Probe.read mem (p.l4 + 13)
  if thFlags.toNat &&& tcpFlagMask ∈ tcpBadFlagList then return none
  cksumPass enableCksum (cksumTest mem (p.l4 + 16) (l4PseudoCksum p ipprotoTcp tcpLen))
  let some p ← tcpOptionsCheck mem tcphLen p | return none
  let sport ← loadU16 mem p.l4
  let dport ← loadU16 mem (p.l4 + 2)
  let seq ← loadNet32 mem (p.l4 + 4)
  return some { p with
    sport := ntohs sport, dport := ntohs dport, rawPtr := p.l4 + tcphLen,
    rawLen := u32 (p.len - p.l4 - tcphLen), rawSeq := seq }

/-- `dpi_parse_udp`. A checksum mismatch only rewrites the header's checksum field. -/
def dpiParseUdp (enableCksum : Bool) (mem : Nat → UInt8) (p : Pkt) : Probe (Option Pkt) := do
  let udpLen := u16 (p.len - p.l4)
  if udpLen < udpHdrLen then return none
  cksumPass enableCksum (cksumTest mem (p.l4 + 6) (l4PseudoCksum p ipprotoUdp udpLen))
  let sport ← loadU16 mem p.l4
  let dport ← loadU16 mem (p.l4 + 2)
  return some { p with
    sport := ntohs sport, dport := ntohs dport, rawPtr := p.l4 + udpHdrLen,
    rawLen := u32 (p.len - p.l4 - udpHdrLen) }

/-- The ports an ICMP message is keyed by, in host order, and whether it is a request. -/
structure IcmpKey where
  sport : Nat
  dport : Nat
  client : Bool

/-- The `switch (icmph->type)` of `dpi_parse_icmp`: a reply is keyed as its request. -/
def icmpKey (type code id : Nat) : IcmpKey :=
  if type = icmpEchoreply then ⟨code <<< 8 ||| icmpEcho, id, false⟩
  else if type = icmpTimestampreply then ⟨code <<< 8 ||| icmpTimestamp, id, false⟩
  else if type = icmpInfoReply then ⟨code <<< 8 ||| icmpInfoRequest, id, false⟩
  else if type = icmpAddressreply then ⟨code <<< 8 ||| icmpAddress, id, false⟩
  else ⟨id, code <<< 8 ||| type, true⟩

/-- The `switch (icmp6h->icmp6_type)` of `dpi_parse_icmpv6`. -/
def icmp6Key (type code data : Nat) : IcmpKey :=
  if type = icmp6EchoReply then ⟨code <<< 8 ||| icmp6EchoReply, data, false⟩
  else ⟨data, code <<< 8 ||| type, true⟩

def setIcmpKey (k : IcmpKey) (hdrLen : Nat) (p : Pkt) : Pkt :=
  { p with
    flags := if k.client then p.flags ||| dpiPktFlagClient else p.flags,
    sport := ntohs k.sport, dport := ntohs k.dport, rawPtr := p.l4 + hdrLen,
    rawLen := u32 (p.len - p.l4 - hdrLen) }

/-- `dpi_parse_icmp`. The checksum covers no pseudo header, and a mismatch only rewrites the
header's checksum field. -/
def dpiParseIcmp (enableCksum : Bool) (mem : Nat → UInt8) (p : Pkt) : Probe (Option Pkt) := do
  let icmpLen := u16 (p.len - p.l4)
  if icmpLen < icmpHdrLen then return none
  cksumPass enableCksum (cksumTest mem (p.l4 + 2) (getL4v4Cksum · none p.l4 icmpLen))
  let type ← Probe.read mem p.l4
  let code ← Probe.read mem (p.l4 + 1)
  let id ← loadU16 mem (p.l4 + 4)
  return some (setIcmpKey (icmpKey type.toNat code.toNat id) icmpHdrLen p)

/-- `dpi_parse_icmpv6`. Unlike the other layer-4 parsers it refuses a bad checksum. -/
def dpiParseIcmpv6 (enableCksum : Bool) (mem : Nat → UInt8) (p : Pkt) : Probe (Option Pkt) := do
  let icmp6Len := u16 (p.len - p.l4)
  if icmp6Len < icmp6HdrLen then return none
  if !(← cksumOk enableCksum
      (cksumTest mem (p.l4 + 2) (getL4v6Cksum · p.l3 ipprotoIcmpv6 p.l4 icmp6Len))) then
    return none
  let type ← Probe.read mem p.l4
  let code ← Probe.read mem (p.l4 + 1)
  let data ← loadU16 mem (p.l4 + 4)
  return some (setIcmpKey (icmp6Key type.toNat code.toNat data) icmp6HdrLen p)

/-! ### IPv4 -/

/-- `dpi_parse_ipv4_hdr`: the header after the Ethernet header. -/
def dpiParseIpv4Hdr (enableCksum : Bool) (mem : Nat → UInt8) (p : Pkt) : Probe (Option Pkt) := do
  let ipCaplen := u16 (p.capLen - ethHdrLen)
  if ipCaplen < ipHdrLen then return none
  let vihl ← Probe.read mem ethHdrLen
  if ipVersion vihl ≠ 4 then return none
  let ipLen := ntohs (← loadU16 mem (ethHdrLen + 2))
  let iphLen := getIphLen vihl
  if iphLen < ipHdrLen ∨ ipLen < iphLen ∨ ipCaplen < ipLen then return none
  let p := { p with len := u16 (ipLen + ethHdrLen), l4 := u16 (p.l3 + iphLen) }
  if !(← cksumOk enableCksum (cksumTest mem (ethHdrLen + 10) (getIpCksum · ethHdrLen))) then
    return none
  return some p

/-- The `switch (p->ip_proto)` of `dpi_parse_ipv4`. -/
def dpiParseL4v4 (enableCksum : Bool) (mem : Nat → UInt8) (p : Pkt) : Probe Parsed :=
  if p.ipProto = ipprotoTcp then Parsed.ofOption <$> dpiParseTcp enableCksum mem p
  else if p.ipProto = ipprotoUdp then Parsed.ofOption <$> dpiParseUdp enableCksum mem p
  else if p.ipProto = ipprotoIcmp then Parsed.ofOption <$> dpiParseIcmp enableCksum mem p
  else return .ok (rawRest p)

def dpiParseIpv4 (enableCksum : Bool) (mem : Nat → UInt8) (p : Pkt) : Probe Parsed := do
  match ← dpiParseIpv4Hdr enableCksum mem p with
  | none => return .bad
  | some p =>
    let fragOff := ntohs (← loadU16 mem (p.l3 + 6))
    if fragOff &&& ipFragBits ≠ 0 then return .defrag p
    let proto ← Probe.read mem (p.l3 + 9)
    dpiParseL4v4 enableCksum mem { p with ipProto := proto.toNat }

/-- How the `switch (type)` of `dpi_parse_ipv6_ext` ends for the header at `ptr`. -/
inductive ExtHdr
  /-- `break`: an extension header of `extLen` bytes -/
  | next (extLen : Nat) (hopopts : Bool) (fragh : Option Nat)
  /-- `return -1` -/
  | bad
  /-- the `default` case: the upper-layer header starts here -/
  | last
deriving DecidableEq, Repr

/-- The `switch (type)` of `dpi_parse_ipv6_ext`. Only the first fragment header is kept. -/
def ipv6ExtHdr (mem : Nat → UInt8) (type ptr stop : Nat) (hopopts : Bool) (fragh : Option Nat) :
    Probe ExtHdr :=
  if type = ipprotoFragment then return .next 8 hopopts (some (fragh.getD ptr))
  else if type = ipprotoAh then
    if stop ≤ ptr + 1 then return .bad
    else do
      let len ← Probe.read mem (ptr + 1)
      return .next ((len.toNat + 2) <<< 2) hopopts fragh
  else if type = ipprotoHopopts ∧ hopopts then return .bad
  else if type = ipprotoHopopts ∨ type = ipprotoRouting ∨ type = ipprotoDstopts then
    if stop ≤ ptr + 1 then return .bad
    else do
      let len ← Probe.read mem (ptr + 1)
      return .next ((len.toNat + 1) <<< 3) (hopopts || type = ipprotoHopopts) fragh
  else return .last

/-- What `dpi_parse_ipv6_ext` returns: the upper layer's offset from the IPv6 header, its
protocol (`*protocol`) and the fragment header it met (`p->ip6_fragh`). -/
structure Ipv6Ext where
  offset : Nat
  protocol : Nat
  fragh : Option Nat
deriving DecidableEq, Repr

/-- The loop of `dpi_parse_ipv6_ext`, at the header `ptr` of protocol `type`. -/
def ipv6ExtLoop (mem : Nat → UInt8) (l3 stop type ptr : Nat) (hopopts : Bool)
    (fragh : Option Nat) : Probe (Option Ipv6Ext) :=
  if _ : ptr < stop then do
    match ← ipv6ExtHdr mem type ptr stop hopopts fragh with
    | .bad => return none
    | .last => return some ⟨ptr - l3, type, fragh⟩
    | .next extLen hopopts fragh =>
      if _ : extLen ≤ 2 then return none
      else do
        let next ← Probe.read mem ptr
        ipv6ExtLoop mem l3 stop next.toNat (ptr + extLen) hopopts fragh
  else return none
termination_by stop - ptr

/-- `dpi_parse_ipv6_ext`: the extension headers up to the packet's end. -/
def dpiParseIpv6Ext (mem : Nat → UInt8) (p : Pkt) : Probe (Option Ipv6Ext) := do
  let nxt ← Probe.read mem (p.l3 + 6)
  ipv6ExtLoop mem p.l3 p.len nxt.toNat (p.l3 + ip6HdrLen) false p.ip6Fragh

/-- `dpi_parse_ipv6_hdr`: the header after the Ethernet header, and the upper-layer protocol. -/
def dpiParseIpv6Hdr (mem : Nat → UInt8) (p : Pkt) : Probe (Option (Pkt × Nat)) := do
  let ip6Caplen := u16 (p.capLen - ethHdrLen)
  if ip6Caplen < ip6HdrLen then return none
  let ip6Len := u16 (ntohs (← loadU16 mem (ethHdrLen + 4)) + ip6HdrLen)
  if ip6Caplen < ip6Len then return none
  let p := { p with len := u16 (ip6Len + ethHdrLen) }
  match ← dpiParseIpv6Ext mem p with
  | none => return none
  | some ext => return some ({ p with l4 := u16 (p.l3 + ext.offset), ip6Fragh := ext.fragh },
      ext.protocol)

/-- The `switch (p->ip_proto)` of `dpi_parse_ipv6`. -/
def dpiParseL4v6 (enableCksum : Bool) (mem : Nat → UInt8) (p : Pkt) : Probe Parsed :=
  if p.ipProto = ipprotoTcp then Parsed.ofOption <$> dpiParseTcp enableCksum mem p
  else if p.ipProto = ipprotoUdp then Parsed.ofOption <$> dpiParseUdp enableCksum mem p
  else if p.ipProto = ipprotoIcmp ∨ p.ipProto = ipprotoIcmpv6 then
    Parsed.ofOption <$> dpiParseIcmpv6 enableCksum mem p
  else return .ok (rawRest p)

def dpiParseIpv6 (enableCksum : Bool) (mem : Nat → UInt8) (p : Pkt) : Probe Parsed := do
  match ← dpiParseIpv6Hdr mem p with
  | none => return .bad
  | some (p, protocol) =>
    if p.ip6Fragh.isSome then return .defrag p
    dpiParseL4v6 enableCksum mem { p with ipProto := protocol }

/-- The packet `dpi_recv_packet` hands to `dpi_parse_packet`: `cap_len` set and the fields
before `EOZ` cleared. `raw` lies after `EOZ` and keeps what the previous packet left in it. -/
def Pkt.received (capLen : Nat) (raw : Nat × Nat × Nat) : Pkt :=
  ⟨capLen, 0, 0, 0, 0, 0, 0, 0, 0, 0, 0, 0, 0, none, raw.1, raw.2.1, raw.2.2⟩

/-- `dpi_parse_packet`, on the packet as `dpi_recv_packet` hands it over: `cap_len` set and the
fields before `EOZ` cleared. -/
def dpiParsePacket (enableCksum : Bool) (mem : Nat → UInt8) (p : Pkt) : Probe Parsed := do
  if p.capLen < ethHdrLen then return .bad
  let p := { p with l3 := ethHdrLen, len := p.capLen }
  let ethType := ntohs (← loadU16 mem 12)
  let p := { p with ethType := ethType }
  if ethType = ethPIp then dpiParseIpv4 enableCksum mem p
  else if ethType = ethPIpv6 then dpiParseIpv6 enableCksum mem p
  else return .ok p

end MicroSegment.Dpi
