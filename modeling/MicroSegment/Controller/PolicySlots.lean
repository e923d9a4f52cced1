import Mathlib
import MicroSegment.Lib.RoundRobin

/-!
# Controller: the network policy in KV slots (`controller/cache/policy.go`)

A rule list too large for one KV value is cut into slots. `rules[0]` holds the address of every
workload in its `From`; `preparePolicySlots` first spreads those addresses over `wl_slots`
rules of their own, then deals all rules round-robin onto the slots, doubling the number of
slots until each compressed slot fits `KVValueSizeMax`. The per-node variant stores the spread
address rules (`preparePolicySlotsCommon`) apart from each node's rules
(`preparePolicySlotsNode`).

A slot's value is its rules: JSON and gzip are taken to round-trip, and `zipLen` is the size of
the compressed JSON of a slot. A `nil` address pointer is `none`.
-/

namespace MicroSegment.Controller

open RoundRobin

/-- `share.CLUSGroupIPPolicy`, over the type `α` of workload addresses. -/
structure CLUSGroupIPPolicy (α : Type) where
  id : Nat
  fromAddr : List (Option α)
  toAddr : List (Option α)
  action : Nat
  deriving DecidableEq, Repr

def CLUSGroupIPPolicy.zero {α : Type} : CLUSGroupIPPolicy α := ⟨0, [], [], 0⟩

def CLUSGroupIPPolicy.ofAddrs {α : Type} (addrs : List (Option α)) : CLUSGroupIPPolicy α :=
  { CLUSGroupIPPolicy.zero with fromAddr := addrs }

def defaultGroupRuleID : Nat := 0

def maxPolicySlots : Nat := 512
def beginSlotSmall : ℕ+ := 16
def beginSlotMedium : ℕ+ := 32
def beginSlotLarge : ℕ+ := 64
def beginSlotSuper : ℕ+ := 128
def clusterSmall : Nat := 3000
def clusterMedium : Nat := 6000
def clusterLarge : Nat := 9000
/-- `cluster.KVValueSizeMax`. -/
def kvValueSizeMax : Nat := 512 * 1024

def beginSlotOf (wlen : Nat) : ℕ+ :=
  if wlen < clusterSmall then beginSlotSmall
  else if wlen < clusterMedium then beginSlotMedium
  else if wlen < clusterLarge then beginSlotLarge
  else beginSlotSuper

def slotLoop {β : Type} (attempt : Nat → Option β) (slots : ℕ+) : Option β :=
  if slots.val ≤ maxPolicySlots then
    match attempt slots with
    | some r => some r
    | none => slotLoop attempt ⟨slots.val * 2, Nat.mul_pos slots.pos (by decide)⟩
  else none
termination_by maxPolicySlots + 1 - slots.val
decreasing_by
  have := slots.pos
  show maxPolicySlots + 1 - slots.val * 2 < maxPolicySlots + 1 - slots.val
  omega

theorem slotLoop_some {β : Type} {attempt : Nat → Option β} {slots : ℕ+} {r : β}
    (found : slotLoop attempt slots = some r) : ∃ s, 0 < s ∧ attempt s = some r := by
  fun_induction slotLoop attempt slots with
  | case1 slots _ r' fits =>
    cases found
    exact ⟨slots, slots.pos, fits⟩
  | case2 _ _ _ ih => exact ih found
  | case3 => cases found

/-- The `rules_wl` loop: address `i` of `rules[0]` starts rule `i` below `wl_slots`, and is
appended to rule `i % wl_slots` after. -/
def spreadAddrs {α : Type} (wlSlots : Nat) (addrs : List (Option α)) : List (CLUSGroupIPPolicy α) :=
  addrs.zipIdx.foldl (fun rulesWl p =>
      if p.2 < wlSlots then
        rulesWl.modify p.2 fun r => { r with id := defaultGroupRuleID, fromAddr := [p.1] }
      else rulesWl.modify (p.2 % wlSlots) fun r => { r with fromAddr := r.fromAddr ++ [p.1] })
    (List.replicate wlSlots CLUSGroupIPPolicy.zero)

section Spread

variable {α : Type}

theorem spreadAddrs_concat (wlSlots : Nat) (addrs : List (Option α)) (a : Option α) :
    spreadAddrs wlSlots (addrs ++ [a]) =
      if addrs.length < wlSlots then
        (spreadAddrs wlSlots addrs).modify addrs.length
          fun r => { r with id := defaultGroupRuleID, fromAddr := [a] }
      else (spreadAddrs wlSlots addrs).modify (addrs.length % wlSlots)
          fun r => { r with fromAddr := r.fromAddr ++ [a] } := by
  simp [spreadAddrs, List.zipIdx_append]

theorem spreadAddrs_eq_deal (wlSlots : Nat) (addrs : List (Option α)) :
    spreadAddrs wlSlots addrs = (deal wlSlots addrs).map CLUSGroupIPPolicy.ofAddrs := by
  induction addrs using List.reverseRecOn with
  | nil => simp [spreadAddrs, deal, CLUSGroupIPPolicy.ofAddrs, CLUSGroupIPPolicy.zero]
  | append_singleton addrs a ih =>
    rw [spreadAddrs_concat, deal_concat, ih]
    split
    · rename_i first
      -- pile `addrs.length` is still empty: its elements would sit at or after that index
      have bound : addrs.length < (deal wlSlots addrs).length := by rw [length_deal]; exact first
      have empty : (deal wlSlots addrs)[addrs.length] = [] := by
        have none := deal_pile first addrs 0
        rw [List.getElem?_eq_getElem bound, Option.getD_some,
          List.getElem?_eq_none (l := addrs) (by omega), List.getElem?_eq_none_iff] at none
        exact List.eq_nil_of_length_eq_zero (by omega)
      rw [Nat.mod_eq_of_lt first]
      refine List.ext_getElem? fun j => ?_
      by_cases here : addrs.length = j
      · subst here
        simp [List.getElem?_eq_getElem bound, empty, CLUSGroupIPPolicy.ofAddrs,
          CLUSGroupIPPolicy.zero, defaultGroupRuleID]
      · simp [here]
    · refine List.ext_getElem? fun j => ?_
      by_cases here : addrs.length % wlSlots = j
      · simp only [List.getElem?_modify, List.getElem?_map, here, if_true]
        cases (deal wlSlots addrs)[j]? <;> rfl
      · simp [here]

@[simp] theorem length_spreadAddrs (wlSlots : Nat) (addrs : List (Option α)) :
    (spreadAddrs wlSlots addrs).length = wlSlots := by
  rw [spreadAddrs_eq_deal, List.length_map, length_deal]

theorem spreadAddrs_perm {wlSlots : Nat} {addrs : List (Option α)}
    (spread : 0 < wlSlots ∨ addrs = []) :
    ((spreadAddrs wlSlots addrs).flatMap CLUSGroupIPPolicy.fromAddr).Perm addrs := by
  rw [spreadAddrs_eq_deal, List.flatMap_map]
  rcases spread with pos | rfl
  · simpa [CLUSGroupIPPolicy.ofAddrs, List.flatMap_id'] using deal_flatten_perm pos addrs
  · simp [deal, CLUSGroupIPPolicy.ofAddrs, CLUSGroupIPPolicy.zero]

end Spread

def dealSlots {α : Type} (zipLen : List (CLUSGroupIPPolicy α) → Nat)
    (newRules : List (CLUSGroupIPPolicy α)) (slots : Nat) : Option (List (List (CLUSGroupIPPolicy α))) :=
  let finalSlots := if newRules.length < slots then newRules.length else slots
  let plcs := deal finalSlots newRules
  if plcs.all fun plc => zipLen plc < kvValueSizeMax then some plcs else none

/-- What the `preparePolicySlots` functions return: the slots with the number of address rules
and of addresses, an error, or a Go panic on `rules[0]` of an empty list. -/
inductive SlotsResult (α : Type) where
  | ok (zbs : List (List (CLUSGroupIPPolicy α))) (wlSlots wlLens : Nat)
  | error (msg : String)
  | panic

def prepareSpread {α : Type} (zipLen : List (CLUSGroupIPPolicy α) → Nat)
    (first : CLUSGroupIPPolicy α) (rest : List (CLUSGroupIPPolicy α)) (msg : String) :
    SlotsResult α :=
  let attempt (slots : Nat) :=
    let wlLens := first.fromAddr.length
    let wlSlots := if wlLens < slots then wlLens else slots
    (dealSlots zipLen (spreadAddrs wlSlots first.fromAddr ++ rest) slots).map
      fun zbs => (zbs, wlSlots, wlLens)
  match slotLoop attempt (beginSlotOf first.fromAddr.length) with
  | some (zbs, wlSlots, wlLens) => .ok zbs wlSlots wlLens
  | none => .error msg

def preparePolicySlots {α : Type} (zipLen : List (CLUSGroupIPPolicy α) → Nat)
    (rules : List (CLUSGroupIPPolicy α)) : SlotsResult α :=
  match rules with
  | [] => .panic
  | first :: rest => prepareSpread zipLen first rest "Policy rules are too large"

/-- The fields of `share.CLUSGroupIPPolicyVer` that say how to read the slots back. -/
structure CLUSGroupIPPolicyVer where
  commonSlotNo : Nat
  commonRulesLen : Nat
  slotNo : Nat
  rulesLen : Nat
  workloadSlot : Nat
  workloadLen : Nat
  deriving DecidableEq, Repr

/-- `putPolicyIPRulesToClusterScale`, with every KV write succeeding: the slot values written
under the new version key and the version record. -/
def putPolicyIPRulesToClusterScale {α : Type} (zipLen : List (CLUSGroupIPPolicy α) → Nat)
    (rules : List (CLUSGroupIPPolicy α)) :
    Option (List (List (CLUSGroupIPPolicy α)) × CLUSGroupIPPolicyVer) :=
  match preparePolicySlots zipLen rules with
  | .ok zbs wlSlots wlLens =>
    some (zbs, ⟨0, 0, zbs.length, rules.length + wlSlots - 1, wlSlots, wlLens⟩)
  | _ => none

section Prepared

variable {α : Type} (zipLen : List (CLUSGroupIPPolicy α) → Nat)

theorem dealSlots_some {newRules : List (CLUSGroupIPPolicy α)} {slots : Nat} (pos : 0 < slots)
    {zbs : List (List (CLUSGroupIPPolicy α))} (dealt : dealSlots zipLen newRules slots = some zbs) :
    ∃ n, (0 < n ∨ newRules = []) ∧ zbs = deal n newRules ∧
      ∀ plc ∈ zbs, zipLen plc < kvValueSizeMax := by
  simp only [dealSlots, Option.ite_none_right_eq_some, Option.some.injEq] at dealt
  obtain ⟨fits, rfl⟩ := dealt
  refine ⟨_, ?_, rfl, fun plc mem => by simpa using List.all_eq_true.mp fits plc mem⟩
  split
  · rcases Nat.eq_zero_or_pos newRules.length with none | some
    · exact .inr (List.length_eq_zero_iff.mp none)
    · exact .inl some
  · exact .inl pos

theorem prepareSpread_ok {first : CLUSGroupIPPolicy α} {rest : List (CLUSGroupIPPolicy α)}
    {msg : String} {zbs : List (List (CLUSGroupIPPolicy α))} {wlSlots wlLens : Nat}
    (ok : prepareSpread zipLen first rest msg = .ok zbs wlSlots wlLens) :
    wlLens = first.fromAddr.length ∧ wlSlots ≤ wlLens ∧ (0 < wlSlots ∨ first.fromAddr = []) ∧
      ∃ n, (0 < n ∨ spreadAddrs wlSlots first.fromAddr ++ rest = []) ∧
        zbs = deal n (spreadAddrs wlSlots first.fromAddr ++ rest) ∧
        ∀ plc ∈ zbs, zipLen plc < kvValueSizeMax := by
  dsimp only [prepareSpread] at ok
  split at ok
  · rename_i found
    cases ok
    obtain ⟨slots, pos, attempt⟩ := slotLoop_some found
    obtain ⟨plcs, dealt, same⟩ := Option.map_eq_some_iff.mp attempt
    simp only [Prod.mk.injEq] at same
    obtain ⟨rfl, rfl, rfl⟩ := same
    refine ⟨rfl, by split <;> omega, ?_, dealSlots_some zipLen pos dealt⟩
    split
    · rcases Nat.eq_zero_or_pos first.fromAddr.length with none | some
      · exact .inr (List.length_eq_zero_iff.mp none)
      · exact .inl some
    · exact .inl pos
  · cases ok

end Prepared

end MicroSegment.Controller
