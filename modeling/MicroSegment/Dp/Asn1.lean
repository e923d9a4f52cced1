import Mathlib
import MicroSegment.Lib.Probe

/-!
# The DER reader of the dataplane (`dp/utils/asn1.c`)

The SSL parser walks certificates with these calls. Each one reads at `buf->seq`, moves it on
and fills the `asn1_t` of the header it read. The caller stops at any code but `ASN1_ERR_NONE`,
or `ASN1_ERR_LONG` where it allows it. The buffer is the memory `mem` from `buf->ptr` on, of which
the parser may read `len` bytes. `seq` and `len` are `uint32_t`, so a move of `seq` wraps at
`2 ^ 32`, and every call logs the offsets it reads (`Probe`). The signed `int`s of the source (the
tag and length accumulators, the integer read) are kept as their 32 bits, so a test `< 0` is a
test of the top bit.

For a buffer below `2 ^ 31` bytes:
- `asn1ReadHeader` reads only below `len`, and a header it accepts has its content inside `len`
  (`asn1ReadHeader_readsOnly`, `asn1ReadHeader_ok`);
- `asn1_read_integer` reads with no test of `len`, and stays inside it right after an accepted
  header (`asn1ReadInteger_readsOnly`);
- `asn1_read_oid` tests each byte (`asn1ReadOid_readsOnly`).
-/

namespace MicroSegment.Dp

open Probe

inductive Asn1Err where
  | none
  | long
  | format
  deriving DecidableEq, Repr

def asn1ClassContext : Nat := 2

-- the `asn1_tag_t` numbers that the reader and its callers test
def asn1TagBoolean : Nat := 1
def asn1TagInteger : Nat := 2
def asn1TagBitstr : Nat := 3
def asn1TagOctstr : Nat := 4
def asn1TagObjid : Nat := 6
def asn1TagUtf8str : Nat := 12
def asn1TagSequence : Nat := 16
def asn1TagNumstr : Nat := 18
def asn1TagPrintstr : Nat := 19
def asn1TagTelestr : Nat := 20
def asn1TagVideostr : Nat := 21
def asn1TagIa5str : Nat := 22
def asn1TagUtctime : Nat := 23
def asn1TagGentime : Nat := 24
def asn1TagGrastr : Nat := 25
def asn1TagVisstr : Nat := 26
def asn1TagGenstr : Nat := 27
def asn1TagUnivstr : Nat := 28
def asn1TagCharstr : Nat := 29
def asn1TagBmpstr : Nat := 30
def asn1TagVarysize : Nat := 31

def asn1MaxOidLen : Nat := 128

def asn1MaxNodeId : Nat := 0xffffffff

/-- `asn1_t`: the last header read. `class` is `cls`. `length` is an `int` that the reader only
sets to values from `0` to `2 ^ 31 - 1`; `class` and `tag` are `uint8_t`. -/
structure Asn1 where
  length : Nat
  cls : Nat
  tag : Nat
  constructed : Bool
  deriving DecidableEq, Repr

def int32Of (v : Nat) : Int := if v < 2 ^ 31 then v else v - 2 ^ 32

section Reader

variable (mem : Nat → UInt8) (len : UInt32)

/-- The loop of `asn1_read_tag`: seven bits a byte while the top bit is set, in an `int`. -/
def asn1ReadTagLoop (tag seq : Nat) : Probe (Asn1Err × Nat × Nat) :=
  if _ : seq < len.toNat then do
    let ch ← read mem seq
    let tag := (tag <<< 7 ||| (ch &&& 0x7f).toNat) % 2 ^ 32
    if ch ≥ 0x80 then asn1ReadTagLoop tag ((seq + 1) % 2 ^ 32)
    else return (.none, tag, (seq + 1) % 2 ^ 32)
  else return (.format, tag, seq)
termination_by len.toNat - seq
decreasing_by
  have := UInt32.toNat_lt len
  rw [Nat.mod_eq_of_lt (by omega)]
  omega

/-- `asn1_read_tag`: the tag number in the bytes after an identifier of tag 31. -/
def asn1ReadTag (a : Asn1) (seq : Nat) : Probe (Asn1Err × Asn1 × Nat) := do
  let (err, tag, seq) ← asn1ReadTagLoop mem len 0 seq
  if err ≠ .none then return (err, a, seq)
  -- `tag < 0`
  if tag ≥ 2 ^ 31 then return (.format, a, seq)
  -- `asn1->tag` is a `uint8_t`
  return (.none, { a with tag := tag % 256 }, seq)

/-- `count` bytes from `seq` on, big-endian after `acc`, with no test of `len`: the loops of
`asn1_read_length` and `asn1_read_integer`. -/
def asn1ReadBytes (acc seq : Nat) : Nat → Probe (Nat × Nat)
  | 0 => return (acc, seq)
  | count + 1 => do
    let ch ← read mem seq
    asn1ReadBytes (acc <<< 8 ||| ch.toNat) ((seq + 1) % 2 ^ 32) count

/-- `asn1_read_length`: the short form, or up to four bytes of the long form. -/
def asn1ReadLength (a : Asn1) (seq : Nat) : Probe (Asn1Err × Asn1 × Nat) := do
  if seq ≥ len.toNat then return (.format, a, seq)
  let ch ← read mem seq
  if ch = 0x80 then return (.format, a, seq)
  if ch = 0xff then return (.format, a, seq)
  if ch < 0x80 then return (.none, { a with length := ch.toNat }, (seq + 1) % 2 ^ 32)
  let seq := (seq + 1) % 2 ^ 32
  let count := (ch &&& 0x7f).toNat
  if (seq + count) % 2 ^ 32 ≥ len.toNat then return (.format, a, seq)
  if count > 4 then return (.format, a, seq)
  let (length, seq) ← asn1ReadBytes mem 0 seq count
  -- `length < 0`
  if length ≥ 2 ^ 31 then return (.format, a, seq)
  return (.none, { a with length }, seq)

/-- The call of `asn1_read_tag` in `asn1_read_header`, made after an identifier of tag 31. -/
def asn1HeaderTag (a : Asn1) (seq : Nat) : Probe (Asn1Err × Asn1 × Nat) :=
  if a.tag = asn1TagVarysize then asn1ReadTag mem len a seq else pure (.none, a, seq)

/-- `asn1_read_header`: the identifier byte, the tag bytes after an identifier of tag 31, and
the length, which must leave the content inside the buffer. -/
def asn1ReadHeader (a : Asn1) (seq : Nat) : Probe (Asn1Err × Asn1 × Nat) := do
  if len.toNat < 2 ∨ seq ≥ len.toNat then return (.format, a, seq)
  let ch ← read mem seq
  let a : Asn1 := ⟨a.length, (ch.toNat &&& 0xc0) >>> 6, ch.toNat &&& 0x1f, ch &&& 0x20 != 0⟩
  let (err, a, seq) ← asn1HeaderTag mem len a ((seq + 1) % 2 ^ 32)
  if err ≠ .none then return (err, a, seq)
  let (err, a, seq) ← asn1ReadLength mem len a seq
  if err ≠ .none then return (err, a, seq)
  if (seq + a.length) % 2 ^ 32 > len.toNat then return (.format, a, seq)
  return (.none, a, seq)

/-- `asn1_read_integer`: the `length` bytes at `seq`, read with no test of `len`. `*value` is
left alone on `ASN1_ERR_LONG`. -/
def asn1ReadInteger (a : Asn1) (seq : Nat) : Probe (Asn1Err × Option Int × Nat) := do
  if a.length > 4 then return (.long, none, (seq + a.length) % 2 ^ 32)
  let (v, seq) ← asn1ReadBytes mem 0 seq a.length
  return (.none, some (int32Of v), seq)

/-- `asn1_read_string`: the content skipped. -/
def asn1ReadString (a : Asn1) (seq : Nat) : Asn1Err × Nat := (.none, (seq + a.length) % 2 ^ 32)

def oidArcs (arcs : List Nat) (node : Nat) : List Nat :=
  if arcs.length = 0 then
    if node < 80 then [node / 40, node % 40] else [2, node - 80]
  else arcs ++ [node]

/-- The two loops of `asn1_read_oid`, a byte at a time: `node` is the node being read, `none`
at the test of the `while`. -/
def asn1ReadOidLoop (oidEnd : Nat) (arcs : List Nat) : Option Nat → Nat →
    Probe (Asn1Err × List Nat × Nat)
  | none, seq =>
    if seq < oidEnd then
      if arcs.length ≥ asn1MaxOidLen then return (.format, arcs, seq)
      else asn1ReadOidLoop oidEnd arcs (some 0) seq
    else return (.none, arcs, seq)
  | some node, seq =>
    if _ : seq < len.toNat then
      if node > asn1MaxNodeId >>> 7 then return (.format, arcs, seq)
      else do
        let ch ← read mem seq
        let node := node <<< 7 ||| (ch &&& 0x7f).toNat
        if ch ≥ 0x80 then asn1ReadOidLoop oidEnd arcs (some node) ((seq + 1) % 2 ^ 32)
        else asn1ReadOidLoop oidEnd (oidArcs arcs node) none ((seq + 1) % 2 ^ 32)
    else return (.format, arcs, seq)
termination_by node seq => (len.toNat - seq, if node.isSome then 0 else 1)
decreasing_by
  all_goals have := UInt32.toNat_lt len
  · exact Prod.Lex.right _ (by simp)
  all_goals
    apply Prod.Lex.left
    rw [Nat.mod_eq_of_lt (by omega)]
    omega

/-- `asn1_read_oid`: the arcs of the content, at most `ASN1_MAX_OID_LEN`. A node may run past
the content, not past `len`. -/
def asn1ReadOid (a : Asn1) (seq : Nat) : Probe (Asn1Err × List Nat × Nat) :=
  if a.length = 0 then return (.format, [], seq)
  else asn1ReadOidLoop mem len ((seq + a.length) % 2 ^ 32) [] none seq

/-- `asn1_parse_sequence`: a constructed header of tag `SEQUENCE`. -/
def asn1ParseSequence (a : Asn1) (seq : Nat) : Probe (Asn1Err × Asn1 × Nat) := do
  let (err, a, seq) ← asn1ReadHeader mem len a seq
  if err ≠ .none then return (err, a, seq)
  if !a.constructed ∨ a.tag ≠ asn1TagSequence then return (.format, a, seq)
  return (.none, a, seq)

/-! ### Where the reader reads, and where it leaves `seq` -/

theorem val_pure_ne_none {α : Type} {err : Asn1Err} (failed : err ≠ .none) (x y : α) :
    (pure (err, x) : Probe (Asn1Err × α)).val ≠ (.none, y) := by
  simp only [val_pure, ne_eq, Prod.mk.injEq, not_and]
  exact fun same => absurd same failed

theorem succ_mod_of_lt {seq : Nat} (lt : seq < len.toNat) : (seq + 1) % 2 ^ 32 = seq + 1 :=
  Nat.mod_eq_of_lt (by have := UInt32.toNat_lt len; omega)

theorem asn1ReadTagLoop_readsOnly (tag seq : Nat) :
    (asn1ReadTagLoop mem len tag seq).ReadsOnly (· < len.toNat) := by
  fun_induction asn1ReadTagLoop mem len tag seq with
  | case1 tag seq lt ih =>
    rw [readsOnly_bind_iff, readsOnly_read_iff]
    refine ⟨lt, ?_⟩
    dsimp only
    split
    · exact ih _
    · exact readsOnly_pure _
  | case2 => exact readsOnly_pure _

theorem asn1ReadTagLoop_seq (tag seq : Nat) :
    seq ≤ (asn1ReadTagLoop mem len tag seq).val.2.2 ∧
      ((asn1ReadTagLoop mem len tag seq).val.1 = .none →
        seq < (asn1ReadTagLoop mem len tag seq).val.2.2 ∧
          (asn1ReadTagLoop mem len tag seq).val.2.2 ≤ len.toNat) := by
  fun_induction asn1ReadTagLoop mem len tag seq with
  | case1 tag seq lt ih =>
    rw [val_bind]
    dsimp only
    have step := succ_mod_of_lt len lt
    split
    · obtain ⟨later, found⟩ := ih (read mem seq).val
      rw [step] at later found ⊢
      exact ⟨by omega, fun ok => ⟨by have := found ok; omega, (found ok).2⟩⟩
    · simp only [val_pure, step, true_implies]
      omega
  | case2 => simp

theorem asn1ReadTag_readsOnly (a : Asn1) (seq : Nat) :
    (asn1ReadTag mem len a seq).ReadsOnly (· < len.toNat) := by
  rw [asn1ReadTag, readsOnly_bind_iff]
  refine ⟨asn1ReadTagLoop_readsOnly mem len 0 seq, ?_⟩
  split
  split
  · exact readsOnly_pure _
  split <;> exact readsOnly_pure _

theorem asn1ReadTag_ok {a a' : Asn1} {seq seq' : Nat}
    (h : (asn1ReadTag mem len a seq).val = (.none, a', seq')) :
    seq < seq' ∧ seq' ≤ len.toNat ∧ a'.length = a.length := by
  have loop := asn1ReadTagLoop_seq mem len 0 seq
  rw [asn1ReadTag, val_bind] at h
  split at h
  next err tag seq'' found =>
    rw [found] at loop
    split at h
    · exact absurd h (val_pure_ne_none ‹_› _ _)
    split at h
    · simp at h
    · simp only [val_pure, Prod.mk.injEq] at h
      obtain ⟨-, rfl, rfl⟩ := h
      have ok : err = .none := by simpa using ‹¬err ≠ .none›
      exact ⟨(loop.2 ok).1, (loop.2 ok).2, rfl⟩

theorem asn1ReadBytes_seq (acc : Nat) {seq : Nat} (lt : seq < 2 ^ 32) (count : Nat) :
    (asn1ReadBytes mem acc seq count).val.2 = (seq + count) % 2 ^ 32 := by
  induction count generalizing acc seq with
  | zero => exact (Nat.mod_eq_of_lt lt).symm
  | succ count ih =>
    rw [asn1ReadBytes, val_bind, ih _ (Nat.mod_lt _ (by decide))]
    omega

theorem asn1ReadBytes_readsOnly (acc seq count : Nat) (fits : seq + count < 2 ^ 32) :
    (asn1ReadBytes mem acc seq count).ReadsOnly (fun i => seq ≤ i ∧ i < seq + count) := by
  induction count generalizing acc seq with
  | zero => exact readsOnly_pure _
  | succ count ih =>
    rw [asn1ReadBytes, readsOnly_bind_iff, readsOnly_read_iff]
    refine ⟨⟨Nat.le_refl _, by omega⟩, ?_⟩
    rw [Nat.mod_eq_of_lt (by omega)]
    exact (ih _ (seq + 1) (by omega)).imp fun i within => ⟨by omega, by omega⟩

theorem asn1ReadLength_readsOnly (small : len.toNat < 2 ^ 31) (a : Asn1) (seq : Nat) :
    (asn1ReadLength mem len a seq).ReadsOnly (· < len.toNat) := by
  unfold asn1ReadLength
  split
  · exact readsOnly_pure _
  rename_i inside
  rw [readsOnly_bind_iff, readsOnly_read_iff]
  refine ⟨by omega, ?_⟩
  split
  · exact readsOnly_pure _
  split
  · exact readsOnly_pure _
  split
  · exact readsOnly_pure _
  dsimp only
  split
  · exact readsOnly_pure _
  split
  · exact readsOnly_pure _
  -- the long form: the `count` bytes before the test's bound
  rename_i room _
  have count := UInt8.toNat_lt ((read mem seq).val &&& 127)
  rw [readsOnly_bind_iff]
  refine ⟨(asn1ReadBytes_readsOnly mem 0 _ _ (by omega)).imp fun i within => by omega, ?_⟩
  split <;> exact readsOnly_pure _

theorem asn1ReadLength_ok (small : len.toNat < 2 ^ 31) {a a' : Asn1} {seq seq' : Nat}
    (h : (asn1ReadLength mem len a seq).val = (.none, a', seq')) :
    seq < seq' ∧ seq' ≤ len.toNat ∧ a'.length < 2 ^ 31 ∧ a' = { a with length := a'.length } := by
  simp only [asn1ReadLength, val_bind, val_ite, val_pure] at h
  split at h
  · simp at h
  rename_i inside
  have step := succ_mod_of_lt len (Nat.lt_of_not_le inside)
  split at h
  · simp at h
  split at h
  · simp at h
  split at h
  · -- the short form: one byte
    simp only [Prod.mk.injEq] at h
    obtain ⟨-, rfl, rfl⟩ := h
    have byte := UInt8.toNat_lt (read mem seq).val
    rw [step]
    exact ⟨by omega, by omega, by simp only; omega, rfl⟩
  split at h
  · simp at h
  split at h
  · simp at h
  rename_i room _
  have count := UInt8.toNat_lt ((read mem seq).val &&& 127)
  rw [asn1ReadBytes_seq mem 0 (Nat.mod_lt _ (by decide))] at h
  split at h
  · simp at h
  · simp only [Prod.mk.injEq] at h
    obtain ⟨-, rfl, rfl⟩ := h
    exact ⟨by omega, by omega, by simp only; omega, rfl⟩

theorem asn1HeaderTag_readsOnly (a : Asn1) (seq : Nat) :
    (asn1HeaderTag mem len a seq).ReadsOnly (· < len.toNat) := by
  unfold asn1HeaderTag
  split
  · exact asn1ReadTag_readsOnly mem len a seq
  · exact readsOnly_pure _

theorem asn1HeaderTag_ok {a a' : Asn1} {seq seq' : Nat}
    (h : (asn1HeaderTag mem len a seq).val = (.none, a', seq')) :
    seq ≤ seq' ∧ a'.length = a.length := by
  unfold asn1HeaderTag at h
  split at h
  · obtain ⟨later, -, same⟩ := asn1ReadTag_ok mem len h
    exact ⟨Nat.le_of_lt later, same⟩
  · simp only [val_pure, Prod.mk.injEq] at h
    obtain ⟨-, rfl, rfl⟩ := h
    exact ⟨Nat.le_refl _, rfl⟩

theorem asn1ReadHeader_readsOnly (small : len.toNat < 2 ^ 31) (a : Asn1) (seq : Nat) :
    (asn1ReadHeader mem len a seq).ReadsOnly (· < len.toNat) := by
  unfold asn1ReadHeader
  split
  · exact readsOnly_pure _
  rename_i inside
  rw [readsOnly_bind_iff, readsOnly_read_iff]
  refine ⟨by omega, ?_⟩
  rw [readsOnly_bind_iff]
  refine ⟨asn1HeaderTag_readsOnly mem len _ _, ?_⟩
  split
  split
  · exact readsOnly_pure _
  rw [readsOnly_bind_iff]
  refine ⟨asn1ReadLength_readsOnly mem len small _ _, ?_⟩
  split
  split
  · exact readsOnly_pure _
  split <;> exact readsOnly_pure _

/-- An accepted header moves `seq` on and leaves its content inside `len`. -/
theorem asn1ReadHeader_ok (small : len.toNat < 2 ^ 31) {a a' : Asn1} {seq seq' : Nat}
    (h : (asn1ReadHeader mem len a seq).val = (.none, a', seq')) :
    seq < seq' ∧ seq' + a'.length ≤ len.toNat := by
  unfold asn1ReadHeader at h
  split at h
  · simp at h
  rename_i inside
  have step := succ_mod_of_lt len (Nat.lt_of_not_le fun out => inside (.inr out))
  rw [val_bind] at h
  generalize (read mem seq).val = ch at h
  dsimp only at h
  rw [val_bind] at h
  generalize tagged : (asn1HeaderTag mem len _ _).val = rt at h
  obtain ⟨err, a₂, seq₂⟩ := rt
  dsimp only at h
  split at h
  · exact absurd h (val_pure_ne_none ‹_› _ _)
  rename_i tagOk
  rw [val_bind] at h
  generalize lengthRead : (asn1ReadLength mem len a₂ seq₂).val = rl at h
  obtain ⟨err', a₃, seq₃⟩ := rl
  dsimp only at h
  split at h
  · exact absurd h (val_pure_ne_none ‹_› _ _)
  rename_i lengthOk
  split at h
  · simp at h
  rename_i fits
  simp only [val_pure, Prod.mk.injEq] at h
  obtain ⟨-, rfl, rfl⟩ := h
  -- the tag step starts after the identifier, the length step after the tag
  rw [Decidable.of_not_not tagOk, step] at tagged
  rw [Decidable.of_not_not lengthOk] at lengthRead
  have afterTag := (asn1HeaderTag_ok mem len tagged).1
  obtain ⟨afterLength, inLen, short, -⟩ := asn1ReadLength_ok mem len small lengthRead
  exact ⟨by omega, by omega⟩

/-- Right after an accepted header, the integer read stays inside `len`. -/
theorem asn1ReadInteger_readsOnly {a : Asn1} {seq : Nat} (fits : seq + a.length ≤ len.toNat) :
    (asn1ReadInteger mem a seq).ReadsOnly (· < len.toNat) := by
  have := UInt32.toNat_lt len
  unfold asn1ReadInteger
  split
  · exact readsOnly_pure _
  rw [readsOnly_bind_iff]
  refine ⟨(asn1ReadBytes_readsOnly mem 0 seq a.length (by omega)).imp fun i within => by omega, ?_⟩
  exact readsOnly_pure _

theorem asn1ReadInteger_seq {a : Asn1} {seq : Nat} (fits : seq + a.length ≤ len.toNat) :
    (asn1ReadInteger mem a seq).val.2.2 = seq + a.length := by
  have := UInt32.toNat_lt len
  unfold asn1ReadInteger
  split
  · exact Nat.mod_eq_of_lt (by omega)
  · rw [val_bind]
    have bytes := @asn1ReadBytes_seq mem 0 seq (by omega) a.length
    generalize (asn1ReadBytes mem 0 seq a.length).val = r at bytes ⊢
    obtain ⟨v, s⟩ := r
    dsimp only at bytes ⊢
    rw [bytes, Nat.mod_eq_of_lt (by omega)]
    rfl

theorem asn1ReadOidLoop_readsOnly (oidEnd : Nat) (arcs : List Nat) (node : Option Nat)
    (seq : Nat) : (asn1ReadOidLoop mem len oidEnd arcs node seq).ReadsOnly (· < len.toNat) := by
  fun_induction asn1ReadOidLoop mem len oidEnd arcs node seq with
  | case2 => assumption
  | case5 arcs node seq lt _ ih₁ ih₂ =>
    rw [readsOnly_bind_iff, readsOnly_read_iff]
    refine ⟨lt, ?_⟩
    dsimp only
    split
    · exact ih₁ _
    · exact ih₂ _
  | _ => exact readsOnly_pure _

theorem asn1ReadOidLoop_seq (oidEnd : Nat) (arcs : List Nat) (node : Option Nat) (seq : Nat) :
    seq ≤ (asn1ReadOidLoop mem len oidEnd arcs node seq).val.2.2 := by
  fun_induction asn1ReadOidLoop mem len oidEnd arcs node seq with
  | case2 => assumption
  | case5 arcs node seq lt _ ih₁ ih₂ =>
    rw [val_bind]
    dsimp only
    have step := succ_mod_of_lt len lt
    split
    · have := ih₁ (read mem seq).val
      rw [step] at this ⊢
      omega
    · have := ih₂ (read mem seq).val
      rw [step] at this ⊢
      omega
  | _ => exact Nat.le_refl _

theorem asn1ReadOid_readsOnly (a : Asn1) (seq : Nat) :
    (asn1ReadOid mem len a seq).ReadsOnly (· < len.toNat) := by
  unfold asn1ReadOid
  split
  · exact readsOnly_pure _
  · exact asn1ReadOidLoop_readsOnly mem len _ _ _ _

theorem asn1ReadOid_seq (a : Asn1) (seq : Nat) : seq ≤ (asn1ReadOid mem len a seq).val.2.2 := by
  unfold asn1ReadOid
  split
  · exact Nat.le_refl _
  · exact asn1ReadOidLoop_seq mem len _ _ _ _

theorem asn1ParseSequence_readsOnly (small : len.toNat < 2 ^ 31) (a : Asn1) (seq : Nat) :
    (asn1ParseSequence mem len a seq).ReadsOnly (· < len.toNat) := by
  unfold asn1ParseSequence
  rw [readsOnly_bind_iff]
  refine ⟨asn1ReadHeader_readsOnly mem len small a seq, ?_⟩
  split
  split
  · exact readsOnly_pure _
  split <;> exact readsOnly_pure _

theorem asn1ParseSequence_ok {a a' : Asn1} {seq seq' : Nat}
    (h : (asn1ParseSequence mem len a seq).val = (.none, a', seq')) :
    (asn1ReadHeader mem len a seq).val = (.none, a', seq') := by
  unfold asn1ParseSequence at h
  rw [val_bind] at h
  generalize header : (asn1ReadHeader mem len a seq).val = r at h
  obtain ⟨err, a₁, seq₁⟩ := r
  dsimp only at h
  split at h
  · exact absurd h (val_pure_ne_none ‹_› _ _)
  rename_i ok
  split at h
  · simp at h
  · simp only [val_pure, Prod.mk.injEq] at h
    obtain ⟨-, rfl, rfl⟩ := h
    rw [Decidable.of_not_not ok]

end Reader

end MicroSegment.Dp
