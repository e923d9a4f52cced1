import Mathlib
import MicroSegment.Dp.Asn1

/-!
# Certificates in the SSL handshake (`dp/dpi/parsers/dpi_ssl.c`)

`ssl_parse_handshake_v3` walks the handshake messages of a record. It hands the certificate of
a `Certificate` message to `ssl_parse_x509`, which walks it with the DER reader of `asn1.c`. The
record is the memory `mem` from the record's payload on, of `rec->len` bytes.

`ssl_parse_x509` reads only inside the buffer it is given (`sslParseX509_readsOnly`): each
content it reads whole has been put inside the buffer by its header. But the test of a message's
length is against the whole record, and the certificate's length, the three bytes at `ptr + 3` of
the message, is not tested at all. `ssl_parse_x509` reads the first
byte of the certificate whenever that length is at least 2 (`sslParseHandshakeV3_reads_cert`),
so a message that ends the record has the parser read past it
(`sslParseHandshakeV3_reads_cert_overread`).
-/

namespace MicroSegment.Dpi

open Probe MicroSegment.Dp

/-- `FORMAT_MATCH` and `FORMAT_WRONG`. -/
inductive SslFormat where
  | matched
  | wrong
  deriving DecidableEq, Repr

def ssl3HsCertificate : UInt8 := 11

def bigInt24 (mem : Nat → UInt8) (i : Nat) : Nat :=
  (mem i).toNat <<< 16 ||| (mem (i + 1)).toNat <<< 8 ||| (mem (i + 2)).toNat

/-- `GET_BIG_INT24`: three bytes, big-endian. -/
def getBigInt24 (mem : Nat → UInt8) (i : Nat) : Probe Nat := do
  let b0 ← read mem i
  let b1 ← read mem (i + 1)
  let b2 ← read mem (i + 2)
  return b0.toNat <<< 16 ||| b1.toNat <<< 8 ||| b2.toNat

theorem bigInt24_lt (mem : Nat → UInt8) (i : Nat) : bigInt24 mem i < 2 ^ 24 := by
  have b0 := UInt8.toNat_lt (mem i)
  have b1 := UInt8.toNat_lt (mem (i + 1))
  have b2 := UInt8.toNat_lt (mem (i + 2))
  unfold bigInt24
  refine Nat.or_lt_two_pow (Nat.or_lt_two_pow ?_ ?_) (by omega)
  · rw [Nat.shiftLeft_eq]
    omega
  · rw [Nat.shiftLeft_eq]
    omega

theorem toNat_toUInt32_bigInt24 (mem : Nat → UInt8) (i : Nat) :
    (bigInt24 mem i).toUInt32.toNat = bigInt24 mem i := by
  have := bigInt24_lt mem i
  simp only [Nat.toUInt32, UInt32.toNat_ofNat']
  omega

@[simp] theorem val_getBigInt24 (mem : Nat → UInt8) (i : Nat) :
    (getBigInt24 mem i).val = bigInt24 mem i := rfl

/-- The string tags whose content `ssl_parse_x509` skips with `asn1_read_string`. -/
def x509StringTags : List Nat :=
  [asn1TagNumstr, asn1TagTelestr, asn1TagVideostr, asn1TagGrastr, asn1TagVisstr, asn1TagGenstr,
    asn1TagUnivstr, asn1TagCharstr, asn1TagBmpstr, asn1TagBitstr, asn1TagUtf8str, asn1TagIa5str,
    asn1TagOctstr, asn1TagPrintstr]

section X509

variable (mem : Nat → UInt8) (len : UInt32)

def x520OidCommonName : List Nat := [2, 5, 4, 3]

def printString (start : Nat) : Nat → Probe Unit
  | 0 => pure ()
  | count + 1 => do
    let ch ← read mem start
    if ch = 0 then pure () else printString (start + 1) count

def x509Field (oid : List Nat) (a : Asn1) (seq : Nat) : Probe (Asn1Err × List Nat × Nat) :=
  if a.tag = asn1TagBoolean ∨ a.tag = asn1TagInteger then do
    let (err, _, seq) ← asn1ReadInteger mem a seq
    return (err, oid, seq)
  else if a.tag = asn1TagObjid then
    asn1ReadOid mem len a seq
  else if a.tag = asn1TagUtctime ∨ a.tag = asn1TagGentime then
    return (.none, oid, (seq + a.length) % 2 ^ 32)
  else if a.tag ∈ x509StringTags then do
    let (err, next) := asn1ReadString a seq
    -- `buf.ptr + buf.seq - asn1.length` is the string's first byte, at `seq`
    if oid.length ≥ 4 ∧ oid.take 4 = x520OidCommonName then printString mem seq a.length
    return (err, oid, next)
  else
    return (.none, oid, seq)

/-- The `while (buf.seq < buf.len)` over the subject, for at most `fuel` more fields. Each
accepted header moves `seq` on (`asn1ReadHeader_ok`), so `len` rounds are enough: more change
nothing (`x509SubjectLoop_add`). -/
def x509SubjectLoop (ret : Asn1Err) (oid : List Nat) (a : Asn1) : Nat → Nat → Probe Asn1Err
  | 0, _ => return ret
  | fuel + 1, seq =>
    if seq < len.toNat then do
      let (err, a, seq) ← asn1ReadHeader mem len a seq
      if err ≠ .none then return err
      let (err, oid, seq) ← x509Field mem len oid a seq
      if err ≠ .none ∧ err ≠ .long then return err
      x509SubjectLoop err oid a fuel seq
    else return ret

/-- The version and the serial number: `[0] INTEGER` and then `INTEGER`, or the serial number
alone. `some err` is a `return err` of `ssl_parse_x509`. -/
def x509Serial (a : Asn1) (seq : Nat) : Probe (Option Asn1Err × Asn1 × Nat) := do
  let (err, a, seq) ← asn1ReadHeader mem len a seq
  if err ≠ .none then return (some err, a, seq)
  if a.cls ≠ asn1ClassContext then
    let (err, _, seq) ← asn1ReadInteger mem a seq
    if err ≠ .none ∧ err ≠ .long then return (some err, a, seq)
    return (none, a, seq)
  let (err, a, seq) ← asn1ReadHeader mem len a seq
  if err ≠ .none then return (some err, a, seq)
  let (err, ver, seq) ← asn1ReadInteger mem a seq
  if err ≠ .none then return (some err, a, seq)
  if ver.getD 0 > 2 then return (some .format, a, seq)
  let (err, a, seq) ← asn1ReadHeader mem len a seq
  if err ≠ .none then return (some err, a, seq)
  let (err, _, seq) ← asn1ReadInteger mem a seq
  if err ≠ .none ∧ err ≠ .long then return (some err, a, seq)
  return (none, a, seq)

def x509Skip (a : Asn1) (seq : Nat) : Probe (Asn1Err × Asn1 × Nat) := do
  let (err, a, seq) ← asn1ParseSequence mem len a seq
  if err ≠ .none then return (err, a, seq)
  return (.none, a, (seq + a.length) % 2 ^ 32)

/-- `ssl_parse_x509` on a buffer of `len` bytes; `a` is the `asn1_t` it leaves uninitialised. -/
def sslParseX509 (a : Asn1) : Probe Asn1Err := do
  let (err, a, seq) ← asn1ParseSequence mem len a 0
  if err ≠ .none then return err
  -- TBSCertificate
  let (err, a, seq) ← asn1ParseSequence mem len a seq
  if err ≠ .none then return err
  let (stop, a, seq) ← x509Serial mem len a seq
  if let some err := stop then return err
  let (err, a, seq) ← x509Skip mem len a seq
  if err ≠ .none then return err
  let (err, a, seq) ← x509Skip mem len a seq
  if err ≠ .none then return err
  let (err, a, seq) ← x509Skip mem len a seq
  if err ≠ .none then return err
  -- `oid.len = 0`
  x509SubjectLoop mem len err [] a len.toNat seq

end X509

/-- `ssl_parse_handshake_v3` from the message at `ptr` of a record of `recLen` bytes. The bound
`rec->len - 4` is an `int` compared with a `uint32_t`, so it is taken modulo `2 ^ 32`. The
certificate is read in place, at `ptr + 6` of the message body, with its own length. -/
def sslParseHandshakeV3 (mem : Nat → UInt8) (recLen : Nat) (a : Asn1) (ptr : Nat) :
    Probe SslFormat :=
  if _ : ptr < recLen then do
    let type ← read mem ptr
    let len ← getBigInt24 mem (ptr + 1)
    let ptr := ptr + 4
    if len > (recLen + 2 ^ 32 - 4) % 2 ^ 32 then return .wrong
    if type = ssl3HsCertificate then
      let certLen ← getBigInt24 mem (ptr + 3)
      let _ ← (sslParseX509 (fun i => mem (ptr + 6 + i)) certLen.toUInt32 a).shift (ptr + 6)
    sslParseHandshakeV3 mem recLen a (ptr + len)
  else return .matched
termination_by recLen - ptr

/-! ### The certificate reader stays in its buffer -/

section Bounds

variable (mem : Nat → UInt8) {len : UInt32}

theorem printString_readsOnly (start count : Nat) :
    (printString mem start count).ReadsOnly (fun i => start ≤ i ∧ i < start + count) := by
  induction count generalizing start with
  | zero => exact readsOnly_pure _
  | succ count ih =>
    rw [printString, readsOnly_bind_iff, readsOnly_read_iff]
    refine ⟨⟨Nat.le_refl _, by omega⟩, ?_⟩
    split
    · exact readsOnly_pure _
    · exact (ih (start + 1)).imp fun i within => ⟨by omega, by omega⟩

theorem x509Field_readsOnly {oid : List Nat} {a : Asn1} {seq : Nat}
    (fits : seq + a.length ≤ len.toNat) :
    (x509Field mem len oid a seq).ReadsOnly (· < len.toNat) := by
  unfold x509Field
  split
  · rw [readsOnly_bind_iff]
    refine ⟨asn1ReadInteger_readsOnly mem len fits, ?_⟩
    split
    exact readsOnly_pure _
  split
  · exact asn1ReadOid_readsOnly mem len a seq
  split
  · exact readsOnly_pure _
  split
  · -- the common-name log reads the string itself
    dsimp only [asn1ReadString]
    split
    · rw [readsOnly_bind_iff]
      exact ⟨(printString_readsOnly mem seq a.length).imp fun i within => by omega,
        readsOnly_pure _⟩
    · exact readsOnly_pure _
  · exact readsOnly_pure _

theorem x509Field_seq {oid : List Nat} {a : Asn1} {seq : Nat}
    (fits : seq + a.length ≤ len.toNat) : seq ≤ (x509Field mem len oid a seq).val.2.2 := by
  have := UInt32.toNat_lt len
  unfold x509Field
  split
  · simp only [val_bind, val_pure]
    rw [asn1ReadInteger_seq mem len fits]
    omega
  split
  · exact asn1ReadOid_seq mem len a seq
  split
  · simp only [val_pure]
    omega
  split
  · dsimp only [asn1ReadString]
    split <;>
    · simp only [val_bind, val_pure]
      omega
  · exact Nat.le_refl _

variable (small : len.toNat < 2 ^ 31)
include small

theorem readsOnly_asn1ReadHeader_bind (a : Asn1) (seq : Nat)
    {f : Asn1Err × Asn1 × Nat → Probe β}
    (next : ∀ a' seq', seq' + a'.length ≤ len.toNat →
      (f (.none, a', seq')).ReadsOnly (· < len.toNat))
    (stop : ∀ err a' seq', err ≠ .none → (f (err, a', seq')).ReadsOnly (· < len.toNat)) :
    (asn1ReadHeader mem len a seq >>= f).ReadsOnly (· < len.toNat) := by
  rw [readsOnly_bind_iff]
  refine ⟨asn1ReadHeader_readsOnly mem len small a seq, ?_⟩
  generalize header : (asn1ReadHeader mem len a seq).val = r
  obtain ⟨err, a', seq'⟩ := r
  by_cases ok : err = .none
  · subst ok
    exact next a' seq' (asn1ReadHeader_ok mem len small header).2
  · exact stop err a' seq' ok

theorem x509Skip_readsOnly (a : Asn1) (seq : Nat) :
    (x509Skip mem len a seq).ReadsOnly (· < len.toNat) := by
  unfold x509Skip
  rw [readsOnly_bind_iff]
  refine ⟨asn1ParseSequence_readsOnly mem len small a seq, ?_⟩
  split
  split <;> exact readsOnly_pure _

theorem x509Serial_readsOnly (a : Asn1) (seq : Nat) :
    (x509Serial mem len a seq).ReadsOnly (· < len.toNat) := by
  unfold x509Serial
  apply readsOnly_asn1ReadHeader_bind mem small
  · intro a₁ seq₁ fits₁
    dsimp only
    rw [if_neg (by simp)]
    split
    · -- the serial number alone
      rw [readsOnly_bind_iff]
      refine ⟨asn1ReadInteger_readsOnly mem len fits₁, ?_⟩
      split <;> exact readsOnly_pure _
    -- the version, then the serial number
    apply readsOnly_asn1ReadHeader_bind mem small
    · intro a₂ seq₂ fits₂
      dsimp only
      rw [if_neg (by simp), readsOnly_bind_iff]
      refine ⟨asn1ReadInteger_readsOnly mem len fits₂, ?_⟩
      split
      · exact readsOnly_pure _
      split
      · exact readsOnly_pure _
      apply readsOnly_asn1ReadHeader_bind mem small
      · intro a₃ seq₃ fits₃
        dsimp only
        rw [if_neg (by simp), readsOnly_bind_iff]
        refine ⟨asn1ReadInteger_readsOnly mem len fits₃, ?_⟩
        split <;> exact readsOnly_pure _
      · intro err a' seq' failed
        dsimp only
        rw [if_pos failed]
        exact readsOnly_pure _
    · intro err a' seq' failed
      dsimp only
      rw [if_pos failed]
      exact readsOnly_pure _
  · intro err a' seq' failed
    dsimp only
    rw [if_pos failed]
    exact readsOnly_pure _

theorem x509SubjectLoop_readsOnly (ret : Asn1Err) (oid : List Nat) (a : Asn1) (fuel seq : Nat) :
    (x509SubjectLoop mem len ret oid a fuel seq).ReadsOnly (· < len.toNat) := by
  induction fuel generalizing ret oid a seq with
  | zero => exact readsOnly_pure _
  | succ fuel ih =>
    unfold x509SubjectLoop
    split
    · apply readsOnly_asn1ReadHeader_bind mem small
      · intro a₁ seq₁ fits₁
        dsimp only
        rw [if_neg (by simp), readsOnly_bind_iff]
        refine ⟨x509Field_readsOnly mem fits₁, ?_⟩
        split
        · exact readsOnly_pure _
        · exact ih _ _ _ _
      · intro err a' seq' failed
        dsimp only
        rw [if_pos failed]
        exact readsOnly_pure _
    · exact readsOnly_pure _

/-- `ssl_parse_x509` reads only inside the buffer it is given: each content it reads whole has
been put inside `len` by its header. -/
theorem sslParseX509_readsOnly (a : Asn1) :
    (sslParseX509 mem len a).ReadsOnly (· < len.toNat) := by
  unfold sslParseX509
  rw [readsOnly_bind_iff]
  refine ⟨asn1ParseSequence_readsOnly mem len small a 0, ?_⟩
  split
  split
  · exact readsOnly_pure _
  rw [readsOnly_bind_iff]
  refine ⟨asn1ParseSequence_readsOnly mem len small _ _, ?_⟩
  split
  split
  · exact readsOnly_pure _
  rw [readsOnly_bind_iff]
  refine ⟨x509Serial_readsOnly mem small _ _, ?_⟩
  split
  split
  · exact readsOnly_pure _
  -- the signature algorithm, the issuer and the validity, each skipped
  rw [readsOnly_bind_iff]
  refine ⟨x509Skip_readsOnly mem small _ _, ?_⟩
  split
  split
  · exact readsOnly_pure _
  rw [readsOnly_bind_iff]
  refine ⟨x509Skip_readsOnly mem small _ _, ?_⟩
  split
  split
  · exact readsOnly_pure _
  rw [readsOnly_bind_iff]
  refine ⟨x509Skip_readsOnly mem small _ _, ?_⟩
  split
  split
  · exact readsOnly_pure _
  exact x509SubjectLoop_readsOnly mem small _ _ _ _ _

theorem x509SubjectLoop_succ_of_le (ret : Asn1Err) (oid : List Nat) (a : Asn1) (fuel seq : Nat)
    (enough : len.toNat - seq ≤ fuel) :
    x509SubjectLoop mem len ret oid a (fuel + 1) seq =
      x509SubjectLoop mem len ret oid a fuel seq := by
  induction fuel generalizing ret oid a seq with
  | zero =>
    have out : ¬ seq < len.toNat := by omega
    rw [x509SubjectLoop, x509SubjectLoop, if_neg out]
  | succ fuel ih =>
    rw [x509SubjectLoop, x509SubjectLoop]
    by_cases inside : seq < len.toNat
    · rw [if_pos inside, if_pos inside]
      apply bind_congr_val
      generalize header : (asn1ReadHeader mem len a seq).val = r
      obtain ⟨err, a₁, seq₁⟩ := r
      dsimp only
      split
      · rfl
      rename_i ok
      rw [Decidable.of_not_not ok] at header
      obtain ⟨later, fits⟩ := asn1ReadHeader_ok mem len small header
      apply bind_congr_val
      have moved := @x509Field_seq mem len oid a₁ seq₁ fits
      generalize (x509Field mem len oid a₁ seq₁).val = r at moved ⊢
      obtain ⟨err₂, oid₂, seq₂⟩ := r
      dsimp only at moved ⊢
      split
      · rfl
      · exact ih _ _ _ _ (by omega)
    · rw [if_neg inside, if_neg inside]

theorem x509SubjectLoop_add (ret : Asn1Err) (oid : List Nat) (a : Asn1) (seq k : Nat) :
    x509SubjectLoop mem len ret oid a (len.toNat + k) seq =
      x509SubjectLoop mem len ret oid a len.toNat seq := by
  induction k with
  | zero => rfl
  | succ k ih =>
    rw [← Nat.add_assoc, x509SubjectLoop_succ_of_le mem small _ _ _ _ _ (by omega), ih]

end Bounds

def sampleCert (i : Nat) : UInt8 :=
  [0x30, 0x13, 0x30, 0x11, 0x02, 0x01, 0x05, 0x30, 0x00, 0x30, 0x00, 0x30, 0x00,
    0x30, 0x06, 0x31, 0x04, 0x13, 0x02, 0x61, 0x62].getD i 0

theorem sslParseX509_readsOnly_sampleCert :
    (21 : UInt32).toNat < 2 ^ 31 ∧ (sslParseX509 sampleCert 21 ⟨0, 0, 0, false⟩).val = .none ∧
      17 ∈ (sslParseX509 sampleCert 21 ⟨0, 0, 0, false⟩).reads ∧
      (sslParseX509 sampleCert 21 ⟨0, 0, 0, false⟩).ReadsOnly (· < (21 : UInt32).toNat) :=
  ⟨by decide, by decide, by decide, sslParseX509_readsOnly sampleCert (by decide) ⟨0, 0, 0, false⟩⟩

/-! ### Where the certificate is read -/

theorem mem_reads_asn1ReadHeader (mem : Nat → UInt8) {len : UInt32} (two : 2 ≤ len.toNat)
    (a : Asn1) : 0 ∈ (asn1ReadHeader mem len a 0).reads := by
  unfold asn1ReadHeader
  rw [if_neg (by omega)]
  exact mem_reads_bind_left (by simp)

theorem mem_reads_sslParseX509 (mem : Nat → UInt8) {len : UInt32} (two : 2 ≤ len.toNat)
    (a : Asn1) : 0 ∈ (sslParseX509 mem len a).reads := by
  unfold sslParseX509 asn1ParseSequence
  exact mem_reads_bind_left (mem_reads_bind_left (mem_reads_asn1ReadHeader mem two a))

/-- A `Certificate` message that passes the length test has the parser read the first byte of
its certificate, ten bytes after the message, whenever the certificate's length is at least 2.
Neither test looks at where the record ends. -/
theorem sslParseHandshakeV3_reads_cert (mem : Nat → UInt8) (recLen : Nat) (a : Asn1) (ptr : Nat)
    (inside : ptr < recLen) (cert : mem ptr = ssl3HsCertificate)
    (passes : bigInt24 mem (ptr + 1) ≤ (recLen + 2 ^ 32 - 4) % 2 ^ 32)
    (two : 2 ≤ bigInt24 mem (ptr + 7)) :
    ptr + 10 ∈ (sslParseHandshakeV3 mem recLen a ptr).reads := by
  rw [sslParseHandshakeV3, dif_pos inside]
  apply mem_reads_bind_right
  apply mem_reads_bind_right
  simp only [val_read, val_getBigInt24, if_neg (Nat.not_lt.mpr passes), cert, if_true]
  -- the body of a `Certificate` message: its length, then the certificate
  apply mem_reads_bind_right
  apply mem_reads_bind_left
  simp only [val_getBigInt24]
  have fits : 2 ≤ (bigInt24 mem (ptr + 4 + 3)).toUInt32.toNat := by
    rw [toNat_toUInt32_bigInt24]
    exact two
  have first := mem_reads_shift (k := ptr + 4 + 6)
    (mem_reads_sslParseX509 (fun i => mem (ptr + 4 + 6 + i)) fits a)
  rwa [show ptr + 4 + 6 + 0 = ptr + 10 by omega] at first

def certRecord (i : Nat) : UInt8 := [0x0b, 0, 0, 6, 0, 0, 0, 0, 0x10, 0].getD i 0

theorem sslParseHandshakeV3_reads_cert_overread :
    10 ∈ (sslParseHandshakeV3 certRecord 10 ⟨0, 0, 0, false⟩ 0).reads :=
  sslParseHandshakeV3_reads_cert certRecord 10 ⟨0, 0, 0, false⟩ 0 (by decide) (by decide)
    (by decide) (by decide)

end MicroSegment.Dpi
