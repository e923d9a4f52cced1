import Mathlib

/-!
# Reassembly of held segments (`dp/utils/asm.c`)

An `asm_t` holds clips in a tree ordered by `asm_compare`, the serial order of their `seq`;
`tree_first_node` and `tree_next_node` walk it in that order, which is all `asm_construct` reads
of the tree, so the model holds the clips as the list of that walk. `asm_construct` scans the
clips for the range to assemble, then copies that range into the target's buffer.
-/

namespace MicroSegment.Dp

/-- `u32_lt`: `(signed)(u1 - u2) < 0`, the difference has its sign bit set. -/
def u32Lt (u1 u2 : UInt32) : Bool := 2 ^ 31 ≤ (u1 - u2).toNat

/-- `u32_lte`: `(signed)(u1 - u2) <= 0`. -/
def u32Lte (u1 u2 : UInt32) : Bool := u1 = u2 ∨ 2 ^ 31 ≤ (u1 - u2).toNat

/-- `u32_gt`: `(signed)(u1 - u2) > 0`. -/
def u32Gt (u1 u2 : UInt32) : Bool := u1 ≠ u2 ∧ (u1 - u2).toNat < 2 ^ 31

/-- `clip_t`: `len` is a 24-bit field, and `bytes k` is `ptr[skip + k]`. -/
structure Clip where
  seq : UInt32
  len : Nat
  bytes : Nat → UInt8
  len_lt : len < 2 ^ 24

instance : Inhabited Clip := ⟨⟨0, 0, fun _ => 0, by decide⟩⟩

/-- `itr->seq + itr->len`. -/
def Clip.clipEnd (c : Clip) : UInt32 := c.seq + UInt32.ofNat c.len

def asmCompare (n k : Clip) : Int :=
  if u32Gt n.seq k.seq then 1 else if u32Lt n.seq k.seq then -1 else 0

/-- An `asm_t`: its clips in the order `tree_first_node` and `tree_next_node` walk the tree. -/
structure Asm where
  clips : List Clip

/-- `tree_insert_node` on the walk of the tree: `c` goes before the first clip that
`asm_compare` puts after it, and fails on a clip of the same `seq`. This is the walk of the
binary tree after the insert while its keys lie in one window of 2^31, where `asm_compare` is an
order; the offsets of IP fragments lie below 2^17. -/
def treeInsert (c : Clip) : List Clip → Option (List Clip)
  | [] => some [c]
  | n :: rest =>
    if asmCompare n c = 1 then some (c :: n :: rest)
    else if asmCompare n c = -1 then (treeInsert c rest).map (n :: ·)
    else none

/-- `asm_insert`: `none` for `ASM_FAILURE`. -/
def asmInsert (a : Asm) (c : Clip) : Option Asm := (treeInsert c a.clips).map Asm.mk

theorem treeInsert_perm {c : Clip} :
    ∀ {clips clips' : List Clip}, treeInsert c clips = some clips' → clips'.Perm (c :: clips)
  | [], clips', ins => by
    simp only [treeInsert, Option.some.injEq] at ins
    subst ins
    exact .refl _
  | n :: rest, clips', ins => by
    unfold treeInsert at ins
    split at ins
    · simp only [Option.some.injEq] at ins
      subst ins
      exact .refl _
    split at ins
    · obtain ⟨rest', made, rfl⟩ := Option.map_eq_some_iff.mp ins
      exact ((treeInsert_perm made).cons n).trans (.swap c n rest)
    · simp at ins

inductive AsmResult
  | ok
  | failure
  | nop
  | more
  deriving DecidableEq, Repr

def memcpy (dst : Nat → UInt8) (off : Nat) (src : Nat → UInt8) (n : Nat) : Nat → UInt8 :=
  fun k => if off ≤ k ∧ k < off + n then src (k - off) else dst k

/-- The pointers `first` and `last` of the scan, as indices of the walk (the clip count for
NULL), and `total`. -/
structure AsmScan where
  first : Nat
  last : Nat
  total : UInt32
  deriving DecidableEq, Repr

/-- The first loop of `asm_construct`, from the clip `itr` at index `i` with the clips after it
`rest`; `none` is its early `ASM_NOP` at a gap before `must_have`. -/
def asmScan (clips : List Clip) (targetSeq mustHave : UInt32) :
    Nat → List Clip → AsmScan → Option AsmScan
  | _, [], s => some s
  | i, itr :: rest, s =>
    let e := itr.clipEnd
    let total := max s.total (e - (clips.getD s.first default).seq)
    if u32Lte e targetSeq then
      -- the clip is too early: `first = last = next`
      asmScan clips targetSeq mustHave (i + 1) rest ⟨i + 1, i + 1, total⟩
    else
      match rest with
      | next :: _ =>
        if u32Lt e next.seq then
          if u32Lt e mustHave then none else some ⟨s.first, i, total⟩
        else asmScan clips targetSeq mustHave (i + 1) rest ⟨s.first, i, total⟩
      | [] => asmScan clips targetSeq mustHave (i + 1) rest ⟨s.first, i, total⟩

/-- The second loop of `asm_construct`: the clips from index `i` to `last` copied into the
target at their offset from `firstSeq`, the target's length the furthest end. -/
def asmCopy (firstSeq : UInt32) (last : Nat) : Nat → List Clip → Clip → Clip
  | _, [], t => t
  | i, itr :: rest, t =>
    let e := itr.clipEnd
    let t : Clip :=
      ⟨t.seq, max (e - firstSeq).toNat t.len % 2 ^ 24,
        memcpy t.bytes (itr.seq - firstSeq).toNat itr.bytes itr.len, Nat.mod_lt _ (by decide)⟩
    if i = last then t else asmCopy firstSeq last (i + 1) rest t

/-- `asm_construct`: the result and the target as the function leaves it. -/
def asmConstruct (a : Asm) (target : Clip) (mustHave : UInt32) : AsmResult × Clip :=
  if a.clips.length ≤ 1 then (.nop, target)
  else
    match asmScan a.clips target.seq mustHave 0 a.clips ⟨0, 0, 0⟩ with
    | none => (.nop, target)
    | some s =>
      let first := a.clips.getD s.first default
      if s.first = s.last ∨ u32Lt target.seq first.seq then (.nop, target)
      else if s.total.toNat > target.len then
        (.more, ⟨first.seq, s.total.toNat % 2 ^ 24, target.bytes, Nat.mod_lt _ (by decide)⟩)
      else
        let t := asmCopy first.seq s.last s.first (a.clips.drop s.first)
          ⟨target.seq, 0, target.bytes, by decide⟩
        (.ok, ⟨first.seq, t.len, t.bytes, t.len_lt⟩)

def nestedAsm : Asm :=
  ⟨[⟨0, 100, fun _ => 1, by decide⟩, ⟨10, 10, fun _ => 2, by decide⟩, ⟨50, 10, fun _ => 3, by decide⟩]⟩

theorem asmConstruct_nested_gap :
    asmScan nestedAsm.clips 0 50 0 nestedAsm.clips ⟨0, 0, 0⟩ = none ∧
      (asmConstruct nestedAsm ⟨0, 65535, fun _ => 0, by decide⟩ 50).1 = .nop ∧
      ∀ k < 50, ∃ c ∈ nestedAsm.clips, c.seq.toNat ≤ k ∧ k < c.seq.toNat + c.len := by
  refine ⟨by decide, by decide, fun k below => ⟨_, List.mem_cons_self, ?_⟩⟩
  show (0 : UInt32).toNat ≤ k ∧ k < (0 : UInt32).toNat + 100
  simp only [UInt32.toNat_zero]
  omega

theorem asmConstruct_nested_skip :
    (asmConstruct
      ⟨[⟨0, 100, fun _ => 1, by decide⟩, ⟨10, 10, fun _ => 2, by decide⟩,
        ⟨30, 90, fun _ => 3, by decide⟩, ⟨40, 90, fun _ => 4, by decide⟩]⟩
      ⟨50, 65535, fun _ => 0, by decide⟩ 50).map id Clip.seq = (.ok, 30) := by
  decide

end MicroSegment.Dp
