import MicroSegment.Controller.PolicySlots

/-!
# Agent: reading the network policy back from its slots (`agent/system.go`)

`getPolicyConfig` reads slot `i` and puts its rule `idx` at index `slots * idx + i`, undoing the
controller's round-robin deal; `mergeWlPolicyConfig` joins the addresses of the first `wlslots`
rules back into one default rule. `systemConfigPolicyVersion` and
`systemConfigPolicyVersionNode` do both from a version record, the second with the common
address slots and the node's own slots.

The KV store is a function `get` from slot number to the slot's rules: `none` when the key is
missing or its value does not unzip or decode, which the code skips. Go's index-out-of-range
panics are `none`.
-/

namespace MicroSegment.Agent

open MicroSegment.Controller RoundRobin

variable {α : Type}

def getPolicyConfig (get : Nat → Option (List (CLUSGroupIPPolicy α))) (slots ruleslen : Nat) :
    Option (List (CLUSGroupIPPolicy α)) :=
  placeAll slots get (List.replicate ruleslen CLUSGroupIPPolicy.zero)

/-- `mergeWlPolicyConfig`: one default rule with the non-nil addresses of the first `wlslots`
rules, then the rules after them. -/
def mergeWlPolicyConfig (rules : List (CLUSGroupIPPolicy α)) (_ruleslen wlslots _wlens : Nat) :
    Option (List (CLUSGroupIPPolicy α)) :=
  if wlslots ≤ rules.length then
    some ({ CLUSGroupIPPolicy.zero with
        id := defaultGroupRuleID,
        fromAddr := ((rules.take wlslots).flatMap CLUSGroupIPPolicy.fromAddr).filter Option.isSome } ::
      rules.drop wlslots)
  else none

/-- `systemConfigPolicyVersion`; `exist` says whether the rule key prefix exists, and `get`
reads the slots under it. -/
def systemConfigPolicyVersion (exist : Bool) (get : Nat → Option (List (CLUSGroupIPPolicy α)))
    (s : CLUSGroupIPPolicyVer) : Option (List (CLUSGroupIPPolicy α)) :=
  if exist then do
    let groupIPPolicy ← getPolicyConfig get s.slotNo s.rulesLen
    if 0 < groupIPPolicy.length ∧ 0 < s.workloadSlot ∧ 0 < s.workloadLen then
      mergeWlPolicyConfig groupIPPolicy s.rulesLen s.workloadSlot s.workloadLen
    else pure groupIPPolicy
  else some []

def defaultRule (addrs : List (Option α)) : CLUSGroupIPPolicy α :=
  { CLUSGroupIPPolicy.zero with id := defaultGroupRuleID, fromAddr := addrs }

theorem getPolicyConfig_deal {n : Nat} (rules : List (CLUSGroupIPPolicy α))
    (dealt : 0 < n ∨ rules = []) :
    getPolicyConfig (fun i => (deal n rules)[i]?) (deal n rules).length rules.length = some rules := by
  rw [length_deal]
  exact placeAll_deal rules dealt _ List.length_replicate

theorem mergeWlPolicyConfig_spread {wlSlots : Nat} {addrs : List (Option α)}
    (spread : 0 < wlSlots ∨ addrs = []) (rest : List (CLUSGroupIPPolicy α)) (ruleslen wlens : Nat) :
    ∃ merged, merged.Perm (addrs.filter Option.isSome) ∧
      mergeWlPolicyConfig (spreadAddrs wlSlots addrs ++ rest) ruleslen wlSlots wlens =
        some (defaultRule merged :: rest) := by
  refine ⟨_, (spreadAddrs_perm spread).filter _, ?_⟩
  have size : (spreadAddrs wlSlots addrs).length = wlSlots := length_spreadAddrs wlSlots addrs
  rw [mergeWlPolicyConfig, if_pos (by simp), List.take_left' size, List.drop_left' size]
  rfl

section RoundTrip

variable (zipLen : List (CLUSGroupIPPolicy α) → Nat)

theorem preparePolicySlots_read {first : CLUSGroupIPPolicy α} {rest : List (CLUSGroupIPPolicy α)}
    {zbs : List (List (CLUSGroupIPPolicy α))} {wlSlots wlLens : Nat}
    (ok : preparePolicySlots zipLen (first :: rest) = .ok zbs wlSlots wlLens) :
    ∃ merged, merged.Perm (first.fromAddr.filter Option.isSome) ∧
      getPolicyConfig (fun i => zbs[i]?) zbs.length ((first :: rest).length + wlSlots - 1) =
        some (spreadAddrs wlSlots first.fromAddr ++ rest) ∧
      mergeWlPolicyConfig (spreadAddrs wlSlots first.fromAddr ++ rest)
          ((first :: rest).length + wlSlots - 1) wlSlots wlLens =
        some (defaultRule merged :: rest) := by
  obtain ⟨-, -, spread, n, dealt, rfl, -⟩ := prepareSpread_ok zipLen ok
  obtain ⟨merged, perm, merge⟩ := mergeWlPolicyConfig_spread spread rest
    ((first :: rest).length + wlSlots - 1) wlLens
  have len : (first :: rest).length + wlSlots - 1 =
      (spreadAddrs wlSlots first.fromAddr ++ rest).length := by
    simp only [List.length_cons, List.length_append, length_spreadAddrs]
    omega
  exact ⟨merged, perm, len ▸ getPolicyConfig_deal _ dealt, merge⟩

theorem putPolicyIPRulesToClusterScale_read {first : CLUSGroupIPPolicy α}
    {rest : List (CLUSGroupIPPolicy α)} {zbs : List (List (CLUSGroupIPPolicy α))}
    {ver : CLUSGroupIPPolicyVer}
    (put : putPolicyIPRulesToClusterScale zipLen (first :: rest) = some (zbs, ver)) :
    ∃ merged, merged.Perm (first.fromAddr.filter Option.isSome) ∧
      systemConfigPolicyVersion true (fun i => zbs[i]?) ver =
        some (if first.fromAddr = [] then rest else defaultRule merged :: rest) := by
  unfold putPolicyIPRulesToClusterScale at put
  split at put
  · rename_i wlSlots wlLens ok
    simp only [Option.some.injEq, Prod.mk.injEq] at put
    obtain ⟨rfl, rfl⟩ := put
    obtain ⟨merged, perm, read, merge⟩ := preparePolicySlots_read zipLen ok
    obtain ⟨lens, le, spread, -⟩ := prepareSpread_ok zipLen ok
    refine ⟨merged, perm, ?_⟩
    simp only [systemConfigPolicyVersion, if_true, read, Option.bind_eq_bind, Option.bind_some]
    by_cases none : first.fromAddr = []
    · -- no addresses: no address rules, and the merge is skipped
      have zero : wlSlots = 0 := by simp [none] at lens; omega
      subst zero
      simp [none, spreadAddrs]
    · have pos : 0 < wlSlots := spread.resolve_right none
      have some : 0 < wlLens := by
        rw [lens]
        exact List.length_pos_of_ne_nil none
      rw [if_pos ⟨by simp; omega, pos, some⟩, merge, if_neg none]
  all_goals cases put

end RoundTrip

def sampleRule : CLUSGroupIPPolicy Nat := ⟨5, [some 3], [some 4], 2⟩

def sampleRules : List (CLUSGroupIPPolicy Nat) := [⟨0, [some 1, some 2], [], 0⟩, sampleRule]

end MicroSegment.Agent
