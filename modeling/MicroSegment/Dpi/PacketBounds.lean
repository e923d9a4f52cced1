import MicroSegment.Dpi.Packet

/-!
# What layer 2-4 parsing reads, and the offsets it leaves

Every offset that `dpiParsePacket` reads is below `cap_len`, with two exceptions
(`dpiParsePacket_readsOnly`): the two bytes after a SACK option of length 2, which the SACK test
of `dpi_parse_tcp_options` reads wherever the option stands (`SackLookahead`), and, with
checksums on, the byte after an odd-length layer-4 message, which `get_l4_cksum` loads with its
last byte. A packet the parse accepts has consistent offsets (`dpiParsePacket_consistent`), and a
packet it hands to IPv6 reassembly has its fragment header inside the packet
(`dpiParseIpv6_fragh`).
-/

namespace MicroSegment.Dpi

open Probe

variable {mem : Nat → UInt8}

@[simp] theorem readsOnly_loadU16_iff {P : Nat → Prop} (i : Nat) :
    (loadU16 mem i).ReadsOnly P ↔ P i ∧ P (i + 1) := by
  simp [loadU16]

@[simp] theorem readsOnly_loadNet32_iff {P : Nat → Prop} (i : Nat) :
    (loadNet32 mem i).ReadsOnly P ↔ P i ∧ P (i + 1) ∧ P (i + 2) ∧ P (i + 3) := by
  simp [loadNet32, and_assoc]

theorem sumWords_readsOnly (ptr n : Nat) :
    (sumWords mem ptr n).ReadsOnly (fun j => ptr ≤ j ∧ j < ptr + 2 * n) := by
  induction n generalizing ptr with
  | zero => simp [sumWords]
  | succ n ih =>
    simp only [sumWords, readsOnly_bind_iff, readsOnly_loadU16_iff, readsOnly_pure, and_true]
    exact ⟨⟨by omega, by omega⟩, (ih (ptr + 2)).imp fun j h => by omega⟩

theorem getL4Cksum_readsOnly (sum l4 l4Len : Nat) :
    (getL4Cksum mem sum l4 l4Len).ReadsOnly (fun j => l4 ≤ j ∧ j ≤ l4 + l4Len) := by
  simp only [getL4Cksum, readsOnly_bind_iff]
  refine ⟨(sumWords_readsOnly l4 (l4Len / 2)).imp fun j h => by omega, ?_⟩
  split
  · simp only [readsOnly_bind_iff, readsOnly_loadU16_iff, readsOnly_pure, and_true]
    omega
  · simp

theorem getL4v4Cksum_readsOnly (iph : Option Nat) (l4 l4Len : Nat) :
    (getL4v4Cksum mem iph l4 l4Len).ReadsOnly
      (fun j => (∃ l3, iph = some l3 ∧ l3 ≤ j ∧ j < l3 + ipHdrLen) ∨ (l4 ≤ j ∧ j ≤ l4 + l4Len)) := by
  have message (sum : Nat) : (getL4Cksum mem sum l4 l4Len).ReadsOnly
      (fun j => l4 ≤ j ∧ j ≤ l4 + l4Len) :=
    getL4Cksum_readsOnly sum l4 l4Len
  cases iph with
  | none => simpa [getL4v4Cksum] using message 0
  | some l3 =>
    simp only [getL4v4Cksum, readsOnly_bind_iff, readsOnly_read_iff, readsOnly_pure, true_and]
    refine ⟨(sumWords_readsOnly (l3 + 12) 4).imp fun j h => .inl ⟨l3, rfl, ?_⟩,
      .inl ⟨l3, rfl, ?_⟩, (message _).imp fun j h => .inr h⟩
    all_goals simp only [ipHdrLen]; omega

theorem getL4v6Cksum_readsOnly (l3 ipProto l4 l4Len : Nat) :
    (getL4v6Cksum mem l3 ipProto l4 l4Len).ReadsOnly
      (fun j => (l3 ≤ j ∧ j < l3 + ip6HdrLen) ∨ (l4 ≤ j ∧ j ≤ l4 + l4Len)) := by
  simp only [getL4v6Cksum, readsOnly_bind_iff]
  refine ⟨(sumWords_readsOnly (l3 + 8) 16).imp fun j h => .inl ?_,
    (getL4Cksum_readsOnly _ l4 l4Len).imp fun j h => .inr h⟩
  simp only [ip6HdrLen]; omega

theorem cksumTest_readsOnly {P : Nat → Prop} {field : Nat} {cksum : (Nat → UInt8) → Probe Nat}
    (stored : P field ∧ P (field + 1)) (sum : (cksum (clearU16 mem field)).ReadsOnly P) :
    (cksumTest mem field cksum).ReadsOnly P := by
  simp only [cksumTest, readsOnly_bind_iff, readsOnly_loadU16_iff, readsOnly_pure, and_true]
  exact ⟨stored, sum⟩

/-! ### TCP options -/

/-- `j` is one of the two bytes after a SACK option of length 2 that starts before `stop`: the
bytes the SACK test of `dpi_parse_tcp_options` reads. -/
def SackLookahead (mem : Nat → UInt8) (stop j : Nat) : Prop :=
  ∃ q, q + 1 < stop ∧ (mem q).toNat = tcpOptSack ∧ (mem (q + 1)).toNat = 2 ∧
    (j = q + 2 ∨ j = q + 3)

theorem SackLookahead.mono {stop stop' j : Nat} (h : SackLookahead mem stop j)
    (le : stop ≤ stop') : SackLookahead mem stop' j := by
  obtain ⟨q, lt, rest⟩ := h
  exact ⟨q, by omega, rest⟩

def Pkt.layout (p : Pkt) : Nat × Nat × Nat × Nat × Nat :=
  (p.capLen, p.l3, p.l4, p.len, p.ethType)

theorem sackIsZero_readsOnly (type len ptr : Nat) :
    (sackIsZero mem type len ptr).ReadsOnly
      (fun j => type = tcpOptSack ∧ len ≤ 2 ∧ (j = ptr + 2 ∨ j = ptr + 3)) := by
  unfold sackIsZero
  split
  · rename_i sack
    simp only [readsOnly_bind_iff, readsOnly_read_iff]
    refine ⟨by simp [sack.1, sack.2], ?_⟩
    split
    · simpa using ⟨sack.1, sack.2⟩
    · simp
  · simp

theorem tcpOptionValue_readsOnly (type ptr : Nat) (p : Pkt) :
    (tcpOptionValue mem type ptr p).ReadsOnly (fun j => ptr + 2 ≤ j ∧ j < ptr + optLenOf type) := by
  unfold tcpOptionValue
  split
  · subst_vars; simp [optLenOf, tcpOptMax, tcpOptLenTable, tcpOptMss]
  split
  · subst_vars; simp [optLenOf, tcpOptMax, tcpOptLenTable, tcpOptWscale]
  split
  · subst_vars; simp [optLenOf, tcpOptMax, tcpOptLenTable, tcpOptTimestamp]
  split <;> simp

@[simp] theorem layout_tcpOptionValue (type ptr : Nat) (p : Pkt) :
    (tcpOptionValue mem type ptr p).val.layout = p.layout := by
  unfold tcpOptionValue
  repeat' split
  all_goals rfl

theorem tcpOption_readsOnly {ptr stop : Nat} (p : Pkt) (lt : ptr < stop) :
    (tcpOption mem ptr stop p).ReadsOnly
      (fun j => ptr ≤ j ∧ (j < stop ∨ SackLookahead mem stop j)) := by
  simp only [tcpOption, readsOnly_bind_iff, readsOnly_read_iff]
  refine ⟨⟨Nat.le_refl _, .inl lt⟩, ?_⟩
  split
  · simp
  split
  · simp
  split
  · simp
  rename_i room
  simp only [readsOnly_bind_iff, readsOnly_read_iff]
  refine ⟨⟨by omega, .inl (by omega)⟩, ?_⟩
  split
  · simp
  rename_i fits
  simp only [val_read] at *
  simp only [readsOnly_bind_iff]
  refine ⟨(sackIsZero_readsOnly _ _ ptr).imp fun j sackRead => ?_, ?_⟩
  · obtain ⟨sack, short, next⟩ := sackRead
    exact ⟨by omega, .inr ⟨ptr, by omega, sack, by omega, next⟩⟩
  split
  · simp
  simp only [readsOnly_bind_iff, readsOnly_pure, and_true]
  exact (tcpOptionValue_readsOnly _ ptr p).imp fun j h => ⟨by omega, .inl (by omega)⟩

theorem dpiParseTcpOptions_readsOnly (ptr stop : Nat) (p : Pkt) :
    (dpiParseTcpOptions mem ptr stop p).ReadsOnly
      (fun j => ptr ≤ j ∧ (j < stop ∨ SackLookahead mem stop j)) := by
  fun_induction dpiParseTcpOptions mem ptr stop p with
  | case1 ptr p lt ih =>
    rw [readsOnly_bind_iff]
    refine ⟨tcpOption_readsOnly p lt, ?_⟩
    split
    · simp
    · exact (ih _ _).imp fun j h => ⟨by omega, h.2⟩
  | case2 => simp

/-- Every packet a pass of the options loop hands on has the layout of `p`. -/
def OptStep.KeepsLayout (p : Pkt) : OptStep → Prop
  | .done r => ∀ q, r = some q → q.layout = p.layout
  | .next _ q => q.layout = p.layout

theorem tcpOption_keepsLayout (ptr stop : Nat) (p : Pkt) :
    (tcpOption mem ptr stop p).val.KeepsLayout p := by
  generalize step : (tcpOption mem ptr stop p).val = s
  simp only [tcpOption, val_bind, val_ite, val_pure] at step
  repeat' split at step
  all_goals subst step; simp [OptStep.KeepsLayout]

theorem dpiParseTcpOptions_layout (ptr stop : Nat) (p : Pkt) :
    ∀ q, (dpiParseTcpOptions mem ptr stop p).val = some q → q.layout = p.layout := by
  fun_induction dpiParseTcpOptions mem ptr stop p with
  | case1 ptr p lt ih =>
    have step : (tcpOption mem ptr stop p).val.KeepsLayout p := tcpOption_keepsLayout ptr stop p
    simp only [val_bind]
    split
    · next r h => rw [h] at step; exact step
    · next n p' h =>
      rw [h] at step
      intro q ok
      rw [ih n p' q ok, step]
  | case2 => simp

/-! ### Layer 4 -/

/-- The offsets a parse bounded by `bound` may read: those below it; with checksums on, `bound`
itself; and the two bytes after a SACK option of length 2 before it. -/
def ParseRead (mem : Nat → UInt8) (enableCksum : Bool) (bound j : Nat) : Prop :=
  j < bound ∨ (enableCksum = true ∧ j = bound) ∨ SackLookahead mem bound j

theorem ParseRead.mono {en : Bool} {bound bound' j : Nat} (h : ParseRead mem en bound j)
    (le : bound ≤ bound') : ParseRead mem en bound' j := by
  rcases h with lt | ⟨cksum, rfl⟩ | sack
  · exact .inl (by omega)
  · rcases Nat.lt_or_eq_of_le le with lt | rfl
    · exact .inl lt
    · exact .inr (.inl ⟨cksum, rfl⟩)
  · exact .inr (.inr (sack.mono le))

/-- What the IPv4 and IPv6 header parsers establish before a layer-4 parser runs: the message
lies in the packet, after the network header that a pseudo-header checksum reads. -/
structure Pkt.L3Parsed (p : Pkt) : Prop where
  hdr : p.l3 + (if p.ethType = ethPIp then ipHdrLen else ip6HdrLen) ≤ p.l4
  l4_le_len : p.l4 ≤ p.len
  len_le_capLen : p.len ≤ p.capLen
  capLen_lt : p.capLen < 65536

theorem Pkt.L3Parsed.l4Len {p : Pkt} (h : p.L3Parsed) : u16 (↑p.len - ↑p.l4) = p.len - p.l4 := by
  have := h.l4_le_len
  have := h.len_le_capLen
  have := h.capLen_lt
  simp only [u16]
  omega

theorem l4PseudoCksum_readsOnly {p : Pkt} (h : p.L3Parsed) (ipProto : Nat) (m : Nat → UInt8) :
    (l4PseudoCksum p ipProto (p.len - p.l4) m).ReadsOnly (fun j => j ≤ p.len) := by
  have hdr := h.hdr
  have := h.l4_le_len
  unfold l4PseudoCksum
  split
  · rename_i v4
    simp only [v4, if_true, ipHdrLen] at hdr
    refine (getL4v4Cksum_readsOnly _ _ _).imp fun j read => ?_
    rcases read with ⟨l3, same, _, _⟩ | _
    · cases same; simp only [ipHdrLen] at *; omega
    · omega
  · rename_i v6
    simp only [v6, if_false, ip6HdrLen] at hdr
    refine (getL4v6Cksum_readsOnly _ _ _ _).imp fun j read => ?_
    simp only [ip6HdrLen] at read
    omega

/-- `p'` is `p` with a payload that runs from inside the layer-4 message to the packet's end. -/
structure Pkt.RawAfter (p p' : Pkt) : Prop where
  layout : p'.layout = p.layout
  l4_le_rawPtr : p.l4 ≤ p'.rawPtr
  raw_end : p'.rawPtr + p'.rawLen = p.len

/-- The offsets of a parsed IP packet. -/
structure Pkt.Consistent (p : Pkt) : Prop where
  l3_le_l4 : p.l3 ≤ p.l4
  l4_le_len : p.l4 ≤ p.len
  len_le_capLen : p.len ≤ p.capLen
  l4_le_rawPtr : p.l4 ≤ p.rawPtr
  raw_end : p.rawPtr + p.rawLen = p.len

theorem Pkt.RawAfter.consistent {p p' : Pkt} (h : p.L3Parsed) (raw : p.RawAfter p') :
    p'.Consistent := by
  have layout := raw.layout
  simp only [Pkt.layout, Prod.mk.injEq] at layout
  obtain ⟨capLen, l3, l4, len, -⟩ := layout
  have := h.hdr
  have := h.l4_le_len
  have := h.len_le_capLen
  have := raw.l4_le_rawPtr
  have := raw.raw_end
  constructor <;> omega

theorem rawAfter_of_hdr {p p' : Pkt} (h : p.L3Parsed) {hdrLen : Nat}
    (fits : hdrLen ≤ p.len - p.l4) (layout : p'.layout = p.layout)
    (rawPtr : p'.rawPtr = p.l4 + hdrLen) (rawLen : p'.rawLen = u32 (↑p.len - ↑p.l4 - ↑hdrLen)) :
    p.RawAfter p' := by
  have := h.l4_le_len
  have := h.len_le_capLen
  have := h.capLen_lt
  refine ⟨layout, by omega, ?_⟩
  rw [rawPtr, rawLen, u32]
  omega

theorem rawAfter_rawRest {p : Pkt} (h : p.L3Parsed) : p.RawAfter (rawRest p) :=
  rawAfter_of_hdr h (Nat.zero_le _) rfl (by simp [rawRest]) (by simp [rawRest])

theorem readsOnly_cksumPass_iff {P : Nat → Prop} (en : Bool) (test : Probe Bool) :
    (cksumPass en test).ReadsOnly P ↔ (en = true → test.ReadsOnly P) := by
  cases en <;> simp [cksumPass]

theorem zeroTimestamp_readsOnly (p : Pkt) :
    (zeroTimestamp mem p).ReadsOnly (fun j => j = p.l4 + 13) := by
  unfold zeroTimestamp
  split <;> simp

theorem tcpOptionsCheck_readsOnly (tcphLen : Nat) (p : Pkt) :
    (tcpOptionsCheck mem tcphLen p).ReadsOnly (fun j =>
      (p.l4 + tcpHdrLen ≤ j ∧ (j < p.l4 + tcphLen ∨ SackLookahead mem (p.l4 + tcphLen) j)) ∨
        j = p.l4 + 13) := by
  unfold tcpOptionsCheck
  split
  · simp only [readsOnly_bind_iff]
    refine ⟨(dpiParseTcpOptions_readsOnly _ _ p).imp fun j h => .inl h, ?_⟩
    split
    · simp
    · next q ok =>
      have layout := dpiParseTcpOptions_layout _ _ p q ok
      simp only [Pkt.layout, Prod.mk.injEq] at layout
      simp only [readsOnly_bind_iff]
      refine ⟨(zeroTimestamp_readsOnly q).imp fun j h => .inr (by omega), ?_⟩
      split <;> simp
  · simp

theorem tcpOptionsCheck_layout (tcphLen : Nat) (p q : Pkt)
    (ok : (tcpOptionsCheck mem tcphLen p).val = some q) : q.layout = p.layout := by
  unfold tcpOptionsCheck at ok
  split at ok
  · simp only [val_bind] at ok
    split at ok
    · simp at ok
    · next q' opts =>
      simp only [val_bind, val_ite, val_pure] at ok
      split at ok
      · simp at ok
      · cases ok
        exact dpiParseTcpOptions_layout _ _ p q opts
  · cases ok
    rfl

theorem parseRead_of_le {en : Bool} {len j : Nat} (on : en = true) (le : j ≤ len) :
    ParseRead mem en len j := by
  rcases Nat.lt_or_eq_of_le le with lt | eq
  · exact .inl lt
  · exact .inr (.inl ⟨on, eq⟩)

theorem dpiParseTcp_readsOnly (en : Bool) {p : Pkt} (h : p.L3Parsed) :
    (dpiParseTcp en mem p).ReadsOnly (ParseRead mem en p.len) := by
  have l4Len := h.l4Len
  have := h.l4_le_len
  simp only [dpiParseTcp, l4Len]
  split
  · simp
  rename_i long
  simp only [tcpHdrLen] at long
  simp only [readsOnly_bind_iff, readsOnly_read_iff]
  refine ⟨.inl (by omega), ?_⟩
  split
  · simp
  rename_i hdr
  simp only [readsOnly_bind_iff, readsOnly_read_iff]
  refine ⟨.inl (by omega), ?_⟩
  split
  · simp
  simp only [readsOnly_bind_iff, readsOnly_cksumPass_iff]
  simp only [tcpHdrLen, not_or, Nat.not_lt] at hdr
  refine ⟨fun on => cksumTest_readsOnly ⟨.inl (by omega), .inl (by omega)⟩
      ((l4PseudoCksum_readsOnly h _ _).imp fun j le => parseRead_of_le on le), ?_, ?_⟩
  · refine (tcpOptionsCheck_readsOnly _ p).imp fun j read => ?_
    rcases read with ⟨-, lt | sack⟩ | flags
    · exact .inl (by omega)
    · exact .inr (.inr (sack.mono (by omega)))
    · exact .inl (by omega)
  · split
    · next q ok =>
      have layout := tcpOptionsCheck_layout _ p q ok
      simp only [Pkt.layout, Prod.mk.injEq] at layout
      simp only [readsOnly_bind_iff, readsOnly_loadU16_iff, readsOnly_loadNet32_iff,
        readsOnly_pure, and_true]
      refine ⟨⟨?_, ?_⟩, ⟨?_, ?_⟩, ?_, ?_, ?_, ?_⟩ <;> exact .inl (by omega)
    · simp

theorem dpiParseTcp_rawAfter (en : Bool) {p p' : Pkt} (h : p.L3Parsed)
    (ok : (dpiParseTcp en mem p).val = some p') : p.RawAfter p' := by
  have l4Len := h.l4Len
  simp only [dpiParseTcp, l4Len, val_bind, val_ite, val_pure] at ok
  split at ok
  · simp at ok
  split at ok
  · simp at ok
  rename_i hdr
  split at ok
  · simp at ok
  split at ok
  · next q opts =>
    have layout := tcpOptionsCheck_layout _ p q opts
    simp only [val_bind, val_pure, Option.some.injEq] at ok
    subst ok
    simp only [tcpHdrLen, not_or, Nat.not_lt] at hdr
    simp only [Pkt.layout, Prod.mk.injEq] at layout
    exact rawAfter_of_hdr h hdr.2 (by simp [Pkt.layout, layout]) (by simp [layout])
      (by simp [layout])
  · simp at ok

theorem readsOnly_cksumOk_iff {P : Nat → Prop} (en : Bool) (test : Probe Bool) :
    (cksumOk en test).ReadsOnly P ↔ (en = true → test.ReadsOnly P) := by
  cases en <;> simp [cksumOk]

theorem dpiParseUdp_readsOnly (en : Bool) {p : Pkt} (h : p.L3Parsed) :
    (dpiParseUdp en mem p).ReadsOnly (ParseRead mem en p.len) := by
  have l4Len := h.l4Len
  simp only [dpiParseUdp, l4Len]
  split
  · simp
  rename_i long
  simp only [udpHdrLen, Nat.not_lt] at long
  simp only [readsOnly_bind_iff, readsOnly_cksumPass_iff, readsOnly_loadU16_iff, readsOnly_pure,
    and_true]
  refine ⟨fun on => cksumTest_readsOnly ⟨.inl (by omega), .inl (by omega)⟩
      ((l4PseudoCksum_readsOnly h _ _).imp fun j le => parseRead_of_le on le), ?_, ?_⟩
  all_goals exact ⟨.inl (by omega), .inl (by omega)⟩

theorem dpiParseUdp_rawAfter (en : Bool) {p p' : Pkt} (h : p.L3Parsed)
    (ok : (dpiParseUdp en mem p).val = some p') : p.RawAfter p' := by
  have l4Len := h.l4Len
  simp only [dpiParseUdp, l4Len, val_bind, val_ite, val_pure] at ok
  split at ok
  · simp at ok
  · rename_i long
    simp only [udpHdrLen, Nat.not_lt, Option.some.injEq] at long ok
    subst ok
    exact rawAfter_of_hdr h long rfl rfl rfl

@[simp] theorem layout_setIcmpKey (k : IcmpKey) (hdrLen : Nat) (p : Pkt) :
    (setIcmpKey k hdrLen p).layout = p.layout := rfl

theorem dpiParseIcmp_readsOnly (en : Bool) {p : Pkt} (h : p.L3Parsed) :
    (dpiParseIcmp en mem p).ReadsOnly (ParseRead mem en p.len) := by
  have l4Len := h.l4Len
  simp only [dpiParseIcmp, l4Len]
  split
  · simp
  rename_i long
  simp only [icmpHdrLen, Nat.not_lt] at long
  simp only [readsOnly_bind_iff, readsOnly_cksumPass_iff, readsOnly_read_iff,
    readsOnly_loadU16_iff, readsOnly_pure, and_true]
  refine ⟨fun on => cksumTest_readsOnly ⟨.inl (by omega), .inl (by omega)⟩
      ((getL4v4Cksum_readsOnly _ _ _).imp fun j read => ?_), .inl (by omega), .inl (by omega),
    .inl (by omega), .inl (by omega)⟩
  rcases read with ⟨_, none, _⟩ | ⟨_, le⟩
  · cases none
  · exact parseRead_of_le on (by omega)

theorem dpiParseIcmp_rawAfter (en : Bool) {p p' : Pkt} (h : p.L3Parsed)
    (ok : (dpiParseIcmp en mem p).val = some p') : p.RawAfter p' := by
  have l4Len := h.l4Len
  simp only [dpiParseIcmp, l4Len, val_bind, val_ite, val_pure] at ok
  split at ok
  · simp at ok
  · rename_i long
    simp only [icmpHdrLen, Nat.not_lt, Option.some.injEq] at long ok
    subst ok
    exact rawAfter_of_hdr h long rfl rfl rfl

theorem dpiParseIcmpv6_readsOnly (en : Bool) {p : Pkt} (h : p.L3Parsed)
    (v6 : p.ethType = ethPIpv6) : (dpiParseIcmpv6 en mem p).ReadsOnly (ParseRead mem en p.len) := by
  have l4Len := h.l4Len
  have hdr := h.hdr
  simp [v6, ethPIpv6, ethPIp, ip6HdrLen] at hdr
  simp only [dpiParseIcmpv6, l4Len]
  split
  · simp
  rename_i long
  simp only [icmp6HdrLen, Nat.not_lt] at long
  simp only [readsOnly_bind_iff, readsOnly_cksumOk_iff]
  refine ⟨fun on => cksumTest_readsOnly ⟨.inl (by omega), .inl (by omega)⟩
      ((getL4v6Cksum_readsOnly _ _ _ _).imp fun j read => ?_), ?_⟩
  · simp only [ip6HdrLen] at read
    rcases read with lt | ⟨_, le⟩
    · exact .inl (by omega)
    · exact parseRead_of_le on (by omega)
  · split
    · simp
    · simp only [readsOnly_bind_iff, readsOnly_read_iff, readsOnly_loadU16_iff, readsOnly_pure,
        and_true]
      exact ⟨.inl (by omega), .inl (by omega), .inl (by omega), .inl (by omega)⟩

theorem dpiParseIcmpv6_rawAfter (en : Bool) {p p' : Pkt} (h : p.L3Parsed)
    (ok : (dpiParseIcmpv6 en mem p).val = some p') : p.RawAfter p' := by
  have l4Len := h.l4Len
  simp only [dpiParseIcmpv6, l4Len, val_bind, val_ite, val_pure] at ok
  split at ok
  · simp at ok
  rename_i long
  split at ok
  · simp at ok
  · simp only [icmp6HdrLen, Nat.not_lt, Option.some.injEq] at long ok
    subst ok
    exact rawAfter_of_hdr h long rfl rfl rfl

theorem ipv6ExtHdr_readsOnly (type ptr stop : Nat) (hopopts : Bool) (fragh : Option Nat) :
    (ipv6ExtHdr mem type ptr stop hopopts fragh).ReadsOnly (fun j => j = ptr + 1 ∧ ptr + 1 < stop) := by
  unfold ipv6ExtHdr
  repeat' split
  all_goals simp_all

theorem ipv6ExtLoop_readsOnly (l3 stop type ptr : Nat) (hopopts : Bool) (fragh : Option Nat) :
    (ipv6ExtLoop mem l3 stop type ptr hopopts fragh).ReadsOnly (fun j => ptr ≤ j ∧ j < stop) := by
  fun_induction ipv6ExtLoop mem l3 stop type ptr hopopts fragh with
  | case1 type ptr hopopts fragh lt ih =>
    rw [readsOnly_bind_iff]
    refine ⟨(ipv6ExtHdr_readsOnly _ _ _ _ _).imp fun j h => ⟨by omega, by omega⟩, ?_⟩
    split
    · simp
    · simp
    · split
      · simp
      · rename_i long
        rw [readsOnly_bind_iff, readsOnly_read_iff]
        exact ⟨⟨Nat.le_refl _, lt⟩, (ih _ _ _ long _).imp fun j h => ⟨by omega, h.2⟩⟩
  | case2 => simp

theorem ipv6ExtHdr_next {type ptr stop extLen : Nat} {hopopts hopopts' : Bool}
    {fragh fragh' : Option Nat}
    (next : (ipv6ExtHdr mem type ptr stop hopopts fragh).val = .next extLen hopopts' fragh') :
    fragh' = fragh ∨ (extLen = 8 ∧ fragh' = some (fragh.getD ptr)) := by
  unfold ipv6ExtHdr at next
  repeat' split at next
  all_goals simp_all

theorem ipv6ExtLoop_ok (l3 stop type ptr : Nat) (hopopts : Bool) (fragh : Option Nat) (lo : Nat) :
    l3 ≤ ptr → lo ≤ ptr → (∀ f, fragh = some f → lo ≤ f ∧ f + 8 ≤ ptr) →
      ∀ ext, (ipv6ExtLoop mem l3 stop type ptr hopopts fragh).val = some ext →
        ptr ≤ l3 + ext.offset ∧ l3 + ext.offset < stop ∧
          ∀ f, ext.fragh = some f → lo ≤ f ∧ f + 8 ≤ l3 + ext.offset := by
  fun_induction ipv6ExtLoop mem l3 stop type ptr hopopts fragh with
  | case1 type ptr hopopts fragh lt ih =>
    intro start above frag ext ok
    simp only [val_bind] at ok
    split at ok
    · simp at ok
    · simp only [val_pure, Option.some.injEq] at ok
      subst ok
      dsimp only
      exact ⟨by omega, by omega, fun f h => by have := frag f h; omega⟩
    · next extLen hopopts' fragh' step =>
      split at ok
      · simp at ok
      · rename_i long
        simp only [val_bind] at ok
        have kept : ∀ f, fragh' = some f → lo ≤ f ∧ f + 8 ≤ ptr + extLen := by
          intro f h
          rcases ipv6ExtHdr_next step with rfl | ⟨rfl, rfl⟩
          · have := frag f h; omega
          · cases fragh with
            | none => simp at h; omega
            | some f0 => simp at h; have := frag f0 rfl; omega
        have := ih _ _ _ long _ (by omega) (by omega) kept ext ok
        exact ⟨by omega, this.2⟩
  | case2 => simp

/-! ### The IP layers -/

theorem Pkt.L3Parsed.of_layout {p q : Pkt} (h : p.L3Parsed) (layout : q.layout = p.layout) :
    q.L3Parsed := by
  simp only [Pkt.layout, Prod.mk.injEq] at layout
  obtain ⟨capLen, l3, l4, len, ethType⟩ := layout
  have := h.hdr
  refine ⟨?_, ?_, ?_, ?_⟩
  · rw [l3, l4, ethType]; exact h.hdr
  · rw [l4, len]; exact h.l4_le_len
  · rw [len, capLen]; exact h.len_le_capLen
  · rw [capLen]; exact h.capLen_lt

@[simp] theorem Parsed.ofOption_eq_ok {o : Option Pkt} {p : Pkt} :
    Parsed.ofOption o = .ok p ↔ o = some p := by
  cases o <;> simp [Parsed.ofOption]

@[simp] theorem Parsed.ofOption_ne_defrag {o : Option Pkt} {p : Pkt} :
    Parsed.ofOption o ≠ .defrag p := by
  cases o <;> simp [Parsed.ofOption]

theorem dpiParseL4v4_readsOnly (en : Bool) {p : Pkt} (h : p.L3Parsed) :
    (dpiParseL4v4 en mem p).ReadsOnly (ParseRead mem en p.len) := by
  unfold dpiParseL4v4
  split
  · simpa using dpiParseTcp_readsOnly en h
  split
  · simpa using dpiParseUdp_readsOnly en h
  split
  · simpa using dpiParseIcmp_readsOnly en h
  · simp

theorem dpiParseL4v4_rawAfter (en : Bool) {p p' : Pkt} (h : p.L3Parsed)
    (ok : (dpiParseL4v4 en mem p).val = .ok p') : p.RawAfter p' := by
  unfold dpiParseL4v4 at ok
  split at ok
  · exact dpiParseTcp_rawAfter en h (by simpa using ok)
  split at ok
  · exact dpiParseUdp_rawAfter en h (by simpa using ok)
  split at ok
  · exact dpiParseIcmp_rawAfter en h (by simpa using ok)
  · simp only [val_pure, Parsed.ok.injEq] at ok
    subst ok
    exact rawAfter_rawRest h

theorem dpiParseL4v6_readsOnly (en : Bool) {p : Pkt} (h : p.L3Parsed) (v6 : p.ethType = ethPIpv6) :
    (dpiParseL4v6 en mem p).ReadsOnly (ParseRead mem en p.len) := by
  unfold dpiParseL4v6
  split
  · simpa using dpiParseTcp_readsOnly en h
  split
  · simpa using dpiParseUdp_readsOnly en h
  split
  · simpa using dpiParseIcmpv6_readsOnly en h v6
  · simp

theorem dpiParseL4v6_rawAfter (en : Bool) {p p' : Pkt} (h : p.L3Parsed)
    (ok : (dpiParseL4v6 en mem p).val = .ok p') : p.RawAfter p' := by
  unfold dpiParseL4v6 at ok
  split at ok
  · exact dpiParseTcp_rawAfter en h (by simpa using ok)
  split at ok
  · exact dpiParseUdp_rawAfter en h (by simpa using ok)
  split at ok
  · exact dpiParseIcmpv6_rawAfter en h (by simpa using ok)
  · simp only [val_pure, Parsed.ok.injEq] at ok
    subst ok
    exact rawAfter_rawRest h

theorem getIpCksum_readsOnly (m : Nat → UInt8) (l3 : Nat) :
    (getIpCksum m l3).ReadsOnly (fun j => j = l3 ∨ (l3 ≤ j ∧ j < l3 + getIphLen (m l3))) := by
  simp only [getIpCksum, readsOnly_bind_iff, readsOnly_read_iff, val_read, readsOnly_pure,
    and_true]
  exact ⟨by simp, (sumWords_readsOnly _ _).imp fun j h => .inr ⟨h.1, by omega⟩⟩

theorem dpiParseIpv4Hdr_readsOnly (en : Bool) {p : Pkt} (lo : ethHdrLen ≤ p.capLen)
    (cap : p.capLen < 65536) : (dpiParseIpv4Hdr en mem p).ReadsOnly (· < p.capLen) := by
  have caplen : u16 (↑p.capLen - ↑ethHdrLen) = p.capLen - ethHdrLen := by
    simp only [u16, ethHdrLen] at *; omega
  simp only [dpiParseIpv4Hdr, caplen]
  split
  · simp
  rename_i room
  simp only [ipHdrLen, ethHdrLen, Nat.not_lt] at room
  simp only [readsOnly_bind_iff, readsOnly_read_iff]
  refine ⟨by simp only [ethHdrLen]; omega, ?_⟩
  split
  · simp
  simp only [readsOnly_bind_iff, readsOnly_loadU16_iff]
  refine ⟨⟨by simp only [ethHdrLen]; omega, by simp only [ethHdrLen]; omega⟩, ?_⟩
  split
  · simp
  rename_i lens
  simp only [readsOnly_bind_iff, readsOnly_cksumOk_iff]
  refine ⟨fun _ => cksumTest_readsOnly ⟨by simp only [ethHdrLen]; omega, by simp only [ethHdrLen]; omega⟩
    ((getIpCksum_readsOnly _ _).imp fun j read => ?_), by split <;> simp⟩
  simp only [clearU16, ethHdrLen, ipHdrLen, val_read, not_or, Nat.not_lt] at read lens caplen ⊢
  simp only [show ¬(14 = 14 + 10 ∨ 14 = 14 + 10 + 1) by omega, if_false] at read
  omega

theorem dpiParseIpv4Hdr_ok (en : Bool) {p p' : Pkt} (l3 : p.l3 = ethHdrLen)
    (v4 : p.ethType = ethPIp) (lo : ethHdrLen ≤ p.capLen) (cap : p.capLen < 65536)
    (ok : (dpiParseIpv4Hdr en mem p).val = some p') :
    p'.L3Parsed ∧ p'.capLen = p.capLen ∧ p'.ethType = p.ethType := by
  have caplen : u16 (↑p.capLen - ↑ethHdrLen) = p.capLen - ethHdrLen := by
    simp only [u16, ethHdrLen] at *; omega
  simp only [dpiParseIpv4Hdr, caplen, val_bind, val_ite, val_pure] at ok
  split at ok
  · simp at ok
  split at ok
  · simp at ok
  split at ok
  · simp at ok
  rename_i lens
  split at ok
  · simp at ok
  · simp only [Option.some.injEq] at ok
    subst ok
    refine ⟨⟨?_, ?_, ?_, ?_⟩, rfl, rfl⟩ <;>
      simp only [v4, if_true, l3, u16, ethHdrLen, ipHdrLen, val_read, not_or, Nat.not_lt] at lens caplen lo ⊢ <;>
      omega

theorem Pkt.L3Parsed.with_ipProto {p : Pkt} (h : p.L3Parsed) (x : Nat) :
    ({ p with ipProto := x } : Pkt).L3Parsed :=
  h.of_layout rfl

theorem dpiParseIpv4_readsOnly (en : Bool) {p : Pkt} (l3 : p.l3 = ethHdrLen)
    (v4 : p.ethType = ethPIp) (lo : ethHdrLen ≤ p.capLen) (cap : p.capLen < 65536) :
    (dpiParseIpv4 en mem p).ReadsOnly (ParseRead mem en p.capLen) := by
  simp only [dpiParseIpv4, readsOnly_bind_iff]
  refine ⟨(dpiParseIpv4Hdr_readsOnly en lo cap).imp fun j lt => .inl lt, ?_⟩
  split
  · simp
  · next p' hdr =>
    obtain ⟨h, capLen, ethType⟩ := dpiParseIpv4Hdr_ok en l3 v4 lo cap hdr
    have inside := h.hdr
    simp only [ethType, v4, if_true, ipHdrLen] at inside
    have := h.l4_le_len
    have := h.len_le_capLen
    simp only [readsOnly_bind_iff, readsOnly_loadU16_iff]
    refine ⟨⟨.inl (by omega), .inl (by omega)⟩, ?_⟩
    split
    · simp
    simp only [readsOnly_bind_iff, readsOnly_read_iff]
    refine ⟨.inl (by omega), ?_⟩
    exact (dpiParseL4v4_readsOnly en (h.with_ipProto _)).imp fun j r => r.mono (by dsimp only; omega)

theorem dpiParseIpv4_consistent (en : Bool) {p q : Pkt} (l3 : p.l3 = ethHdrLen)
    (v4 : p.ethType = ethPIp) (lo : ethHdrLen ≤ p.capLen) (cap : p.capLen < 65536)
    (ok : (dpiParseIpv4 en mem p).val = .ok q) : q.Consistent := by
  simp only [dpiParseIpv4, val_bind] at ok
  split at ok
  · simp at ok
  · next p' hdr =>
    have h := (dpiParseIpv4Hdr_ok en l3 v4 lo cap hdr).1
    simp only [val_bind, val_ite, val_pure] at ok
    split at ok
    · simp at ok
    · exact (dpiParseL4v4_rawAfter en (h.with_ipProto _) ok).consistent (h.with_ipProto _)

theorem dpiParseIpv6Hdr_readsOnly {p : Pkt} (l3 : p.l3 = ethHdrLen) (lo : ethHdrLen ≤ p.capLen)
    (cap : p.capLen < 65536) : (dpiParseIpv6Hdr mem p).ReadsOnly (· < p.capLen) := by
  have caplen : u16 (↑p.capLen - ↑ethHdrLen) = p.capLen - ethHdrLen := by
    simp only [u16, ethHdrLen] at *; omega
  simp only [dpiParseIpv6Hdr, caplen]
  split
  · simp
  rename_i room
  simp only [ip6HdrLen, ethHdrLen, Nat.not_lt] at room
  simp only [readsOnly_bind_iff, readsOnly_loadU16_iff]
  refine ⟨⟨by simp only [ethHdrLen]; omega, by simp only [ethHdrLen]; omega⟩, ?_⟩
  split
  · simp
  rename_i fits
  simp only [readsOnly_bind_iff, dpiParseIpv6Ext, readsOnly_read_iff]
  have len : u16 (↑(u16 (↑(ntohs (loadU16 mem (ethHdrLen + 4)).val) + ↑ip6HdrLen)) + ↑ethHdrLen) ≤
      p.capLen := by
    simp only [u16, ethHdrLen, ip6HdrLen, Nat.not_lt] at fits ⊢; omega
  refine ⟨⟨by simp only [l3, ethHdrLen]; omega,
    (ipv6ExtLoop_readsOnly _ _ _ _ _ _).imp fun j h => Nat.lt_of_lt_of_le h.2 len⟩, ?_⟩
  split <;> simp

theorem dpiParseIpv6Hdr_ok {p p' : Pkt} {protocol : Nat} (l3 : p.l3 = ethHdrLen)
    (v6 : p.ethType = ethPIpv6) (lo : ethHdrLen ≤ p.capLen) (cap : p.capLen < 65536)
    (noFrag : p.ip6Fragh = none) (ok : (dpiParseIpv6Hdr mem p).val = some (p', protocol)) :
    p'.L3Parsed ∧ p'.capLen = p.capLen ∧ p'.ethType = p.ethType ∧
      ∀ f, p'.ip6Fragh = some f → p'.l3 + ip6HdrLen ≤ f ∧ f + 8 ≤ p'.l4 := by
  have caplen : u16 (↑p.capLen - ↑ethHdrLen) = p.capLen - ethHdrLen := by
    simp only [u16, ethHdrLen] at *; omega
  simp only [dpiParseIpv6Hdr, caplen, val_bind, val_ite, val_pure] at ok
  split at ok
  · simp at ok
  split at ok
  · simp at ok
  rename_i fits
  split at ok
  · simp at ok
  · next ext extOk =>
    simp only [val_pure, Option.some.injEq, Prod.mk.injEq] at ok
    obtain ⟨rfl, -⟩ := ok
    simp only [dpiParseIpv6Ext, val_bind, noFrag] at extOk
    generalize u16 (↑(ntohs (loadU16 mem (ethHdrLen + 4)).val) + ↑ip6HdrLen) = ip6Len at fits extOk ⊢
    have len : u16 (↑ip6Len + ↑ethHdrLen) = ip6Len + ethHdrLen := by
      simp only [u16, ethHdrLen] at fits lo ⊢; omega
    rw [len] at extOk ⊢
    obtain ⟨start, inside, frag⟩ := ipv6ExtLoop_ok _ _ _ _ _ _ (p.l3 + ip6HdrLen)
      (by omega) (Nat.le_refl _) (by simp) ext extOk
    have l4 : u16 (↑p.l3 + ↑ext.offset) = p.l3 + ext.offset := by
      simp only [u16, ethHdrLen] at inside fits lo ⊢; omega
    rw [l4]
    have hdr : (if ethPIpv6 = ethPIp then ipHdrLen else ip6HdrLen) = ip6HdrLen := by
      simp [ethPIpv6, ethPIp]
    refine ⟨⟨?_, ?_, ?_, cap⟩, rfl, rfl, fun f h => frag f h⟩ <;> dsimp only
    · simp only [v6, hdr]; omega
    · omega
    · simp only [ethHdrLen] at fits lo ⊢; omega

theorem dpiParseIpv6_readsOnly (en : Bool) {p : Pkt} (l3 : p.l3 = ethHdrLen)
    (v6 : p.ethType = ethPIpv6) (lo : ethHdrLen ≤ p.capLen) (cap : p.capLen < 65536)
    (noFrag : p.ip6Fragh = none) :
    (dpiParseIpv6 en mem p).ReadsOnly (ParseRead mem en p.capLen) := by
  simp only [dpiParseIpv6, readsOnly_bind_iff]
  refine ⟨(dpiParseIpv6Hdr_readsOnly l3 lo cap).imp fun j lt => .inl lt, ?_⟩
  split
  · simp
  · next p' protocol hdr =>
    obtain ⟨h, capLen, ethType, -⟩ := dpiParseIpv6Hdr_ok l3 v6 lo cap noFrag hdr
    have := h.len_le_capLen
    split
    · simp
    · exact (dpiParseL4v6_readsOnly en (h.with_ipProto _) (by simp [ethType, v6])).imp
        fun j r => r.mono (by dsimp only; omega)

theorem dpiParseIpv6_consistent (en : Bool) {p q : Pkt} (l3 : p.l3 = ethHdrLen)
    (v6 : p.ethType = ethPIpv6) (lo : ethHdrLen ≤ p.capLen) (cap : p.capLen < 65536)
    (noFrag : p.ip6Fragh = none) (ok : (dpiParseIpv6 en mem p).val = .ok q) : q.Consistent := by
  simp only [dpiParseIpv6, val_bind] at ok
  split at ok
  · simp at ok
  · next p' protocol hdr =>
    have h := (dpiParseIpv6Hdr_ok l3 v6 lo cap noFrag hdr).1
    simp only [val_ite, val_pure] at ok
    split at ok
    · simp at ok
    · exact (dpiParseL4v6_rawAfter en (h.with_ipProto _) ok).consistent (h.with_ipProto _)

/-- A packet that the IPv6 parser hands to reassembly has its fragment header inside it, after
the IPv6 header: the bytes `dpi_ipv6_defrag` reads from `p->ip6_fragh`. -/
theorem dpiParseIpv6_fragh (en : Bool) {p q : Pkt} (l3 : p.l3 = ethHdrLen)
    (v6 : p.ethType = ethPIpv6) (lo : ethHdrLen ≤ p.capLen) (cap : p.capLen < 65536)
    (noFrag : p.ip6Fragh = none) (frag : (dpiParseIpv6 en mem p).val = .defrag q) :
    ∃ f, q.ip6Fragh = some f ∧ q.l3 + ip6HdrLen ≤ f ∧ f + 8 ≤ q.len := by
  simp only [dpiParseIpv6, val_bind] at frag
  split at frag
  · simp at frag
  · next p' protocol hdr =>
    obtain ⟨h, -, -, inside⟩ := dpiParseIpv6Hdr_ok l3 v6 lo cap noFrag hdr
    simp only [val_ite, val_pure] at frag
    split at frag
    · rename_i some
      simp only [Parsed.defrag.injEq] at frag
      subst frag
      obtain ⟨f, hf⟩ := Option.isSome_iff_exists.mp some
      have after := inside f hf
      have := h.l4_le_len
      exact ⟨f, hf, after.1, by omega⟩
    · unfold dpiParseL4v6 at frag
      repeat' split at frag
      all_goals simp at frag

/-! ### The whole parse -/

/-- Every offset that layer 2-4 parsing reads is below `cap_len`, but for the two bytes after a
SACK option of length 2 and, with checksums on, the byte at `cap_len` after an odd-length
message. -/
theorem dpiParsePacket_readsOnly (en : Bool) {p : Pkt} (cap : p.capLen < 65536)
    (noFrag : p.ip6Fragh = none) :
    (dpiParsePacket en mem p).ReadsOnly (ParseRead mem en p.capLen) := by
  simp only [dpiParsePacket]
  split
  · simp
  rename_i long
  have lo : ethHdrLen ≤ p.capLen := Nat.le_of_not_lt long
  simp only [ethHdrLen] at long
  simp only [readsOnly_bind_iff, readsOnly_loadU16_iff]
  refine ⟨⟨.inl (by omega), .inl (by omega)⟩, ?_⟩
  split
  · next v4 => exact dpiParseIpv4_readsOnly en rfl v4 lo cap
  split
  · next v6 => exact dpiParseIpv6_readsOnly en rfl v6 lo cap noFrag
  · simp

/-- A packet that layer 2-4 parsing accepts as IPv4 or IPv6 has consistent offsets. -/
theorem dpiParsePacket_consistent (en : Bool) {p q : Pkt} (cap : p.capLen < 65536)
    (noFrag : p.ip6Fragh = none) (ok : (dpiParsePacket en mem p).val = .ok q)
    (ip : q.ethType = ethPIp ∨ q.ethType = ethPIpv6) : q.Consistent := by
  simp only [dpiParsePacket, val_bind, val_ite, val_pure] at ok
  split at ok
  · simp at ok
  rename_i long
  have lo : ethHdrLen ≤ p.capLen := Nat.le_of_not_lt long
  split at ok
  · next v4 => exact dpiParseIpv4_consistent en rfl v4 (by exact lo) (by exact cap) ok
  split at ok
  · next v6 =>
    exact dpiParseIpv6_consistent en rfl v6 (by exact lo) (by exact cap) (by exact noFrag) ok
  · next notV4 notV6 =>
    simp only [Parsed.ok.injEq] at ok
    subst ok
    exact (ip.elim notV4 notV6).elim

def sackFrame : List UInt8 :=
  [0, 0, 0, 0, 0, 0, 0, 0, 0, 0, 0, 0, 0x08, 0x00,
    0x45, 0, 0, 44, 0, 0, 0, 0, 64, 6, 0, 0, 10, 0, 0, 1, 10, 0, 0, 2,
    0, 80, 0, 81, 0, 0, 0, 0, 0, 0, 0, 0, 0x60, 0x10, 0, 0, 0, 0, 0, 0, 1, 1, 5, 2]

def frameMem (frame : List UInt8) (rest : Nat → UInt8) : Nat → UInt8 :=
  fun i => if i < frame.length then frame.getD i 0 else rest i

/-- A SACK option of length 2 that ends the TCP header of a frame with no payload: the test
`*(ptr+2) == 0 && *(ptr+3) == 0` reads the two bytes after the frame, so the bound
`ParseRead` of `dpiParsePacket_readsOnly` is reached, and whether the frame is dropped depends
on what the buffer holds there. -/
theorem dpiParsePacket_sack_overread (rest : Nat → UInt8) (raw : Nat × Nat × Nat) :
    58 ∈ (dpiParsePacket false (frameMem sackFrame rest) (Pkt.received 58 raw)).reads ∧
      ((dpiParsePacket false (frameMem sackFrame rest) (Pkt.received 58 raw)).val = .bad ↔
        rest 58 = 0 ∧ rest 59 = 0) := by
  by_cases zero : rest 58 = 0 ∧ rest 59 = 0
  all_goals
  simp [zero, dpiParsePacket, Pkt.received, frameMem, sackFrame, loadU16, ntohs, ethHdrLen, ethPIp,
    dpiParseIpv4, dpiParseIpv4Hdr, u16, ipHdrLen, ipVersion, getIphLen, cksumOk, dpiParseL4v4,
    ipprotoTcp, dpiParseTcp, tcpHdrLen, getTcphLen, tcpBadFlagList, tcpFlagMask, thPush, thUrg,
    thFin, thAck, thSyn, thRst, cksumPass, tcpOptionsCheck, dpiParseTcpOptions_of_lt,
    dpiParseTcpOptions_of_le, tcpOption, tcpOptEol, tcpOptNop, optLenOf, tcpOptMax,
    tcpOptLenTable, sackIsZero, tcpOptSack, Nat.shiftLeft_eq, Nat.shiftRight_eq_div_pow,
    tcpOptionValue, zeroTimestamp, Parsed.ofOption, tcpOptMss, tcpOptWscale, tcpOptTimestamp,
    tcpOptSackok, dpiPktFlagTcpTs]

end MicroSegment.Dpi
