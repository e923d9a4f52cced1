import MicroSegment.Dp.PolicyTypes

/-!
# Dataplane policy table: lookup

`dpiPolicyLookupByKeyRaw` is `_dpi_policy_lookup_by_key`: the exact map first, then the range
list of the key's direction, then the list of rules without a direction. `dpiPolicyLookupByKey`
is the full lookup with its short-cuts, the FQDN merge and the second lookup with the remote
address cleared for an external peer. `consulted` says when the full lookup reaches the table;
`dpiPolicyLookupByKey_consulted` states what it returns then.
-/

namespace MicroSegment.Dp.Policy

def isXInRange (x y z : Nat) : Bool := decide (y ≤ x) && decide (x ≤ z)

def ruleKeyInRange (item : RangeItem) (k : RuleKey) : Bool :=
  isXInRange k.dport item.keyL.dport item.keyH.dport &&
    isXInRange k.sip item.keyL.sip item.keyH.sip &&
    isXInRange k.dip item.keyL.dip item.keyH.dip &&
    isXInRange k.app item.keyL.app item.keyH.app

/-- `dpi_range_rule_match`: the first item of the list whose bounds hold the key. -/
def dpiRangeRuleMatch (items : List RangeItem) (k : RuleKey) : Option RangeItem :=
  items.find? (fun item => ruleKeyInRange item k)

theorem dpiRangeRuleMatch_some {items : List RangeItem} {k : RuleKey} {x : RangeItem}
    (found : dpiRangeRuleMatch items k = some x) : ruleKeyInRange x k = true ∧ x ∈ items := by
  unfold dpiRangeRuleMatch at found
  have hold := List.find?_some found
  exact ⟨hold, List.mem_of_find?_eq_some found⟩

theorem dpiRangeRuleMatch_eq_some_iff {items : List RangeItem} {k : RuleKey} {x : RangeItem} :
    dpiRangeRuleMatch items k = some x ↔ ruleKeyInRange x k = true ∧
      ∃ pre post, items = pre ++ x :: post ∧ ∀ a ∈ pre, (!ruleKeyInRange a k) = true := by
  unfold dpiRangeRuleMatch
  exact List.find?_eq_some_iff_append

theorem dpiRangeRuleMatch_eq_none {items : List RangeItem} {k : RuleKey} :
    dpiRangeRuleMatch items k = none ↔ ∀ x ∈ items, ¬ ruleKeyInRange x k = true := by
  unfold dpiRangeRuleMatch
  exact List.find?_eq_none

theorem dpiRangeRuleMatch_append (items more : List RangeItem) (k : RuleKey) :
    dpiRangeRuleMatch (items ++ more) k =
      (dpiRangeRuleMatch items k).or (dpiRangeRuleMatch more k) := by
  simp [dpiRangeRuleMatch, List.find?_append]

/-- `rcu_map_lookup` on `policy_map`: the first entry stored under the key. -/
def Hdl.exactLookup (hdl : Hdl) (k : RuleKey) : Option Desc :=
  (hdl.policyMap.find? (fun entry => decide (entry.1 = k))).map Prod.snd

def rangeKeyOf (k : RuleKey) (isIngress : Bool) : RangeKey :=
  if isIngress then ⟨k.dip, k.proto, dpRangeRuleIngress⟩ else ⟨k.sip, k.proto, dpRangeRuleEgress⟩

theorem rangeKeyOf_app (k : RuleKey) (app : Nat) (isIngress : Bool) :
    rangeKeyOf { k with app := app } isIngress = rangeKeyOf k isIngress := by
  cases isIngress <;> rfl

def noDirKey (k : RuleKey) : RangeKey := ⟨0, k.proto, 0⟩

/-- The descriptor `_dpi_policy_lookup_by_key` writes when nothing matches. -/
def noMatchDesc (hdl : Hdl) : Desc := ⟨0, hdl.defAction, policyDescCheckVer, 0, 0xffffffff⟩

/-- `_dpi_policy_lookup_by_key`. Every branch overwrites the whole descriptor. -/
def dpiPolicyLookupByKeyRaw (hdl : Hdl) (key : RuleKey) (isIngress : Bool) : Desc :=
  match hdl.exactLookup key with
  | some d => d
  | none =>
    match dpiRangeRuleMatch (hdl.rangePolicyMap (rangeKeyOf key isIngress)) key with
    | some item => item.desc
    | none =>
      match dpiRangeRuleMatch (hdl.rangePolicyMap (noDirKey key)) key with
      | some item => item.desc
      | none => noMatchDesc hdl

/-- `policy_desc_merge`: the second descriptor wins when it names a rule of lower order. -/
def policyDescMerge (desc1 desc2 : Desc) : Desc :=
  if 0 < desc2.id ∧ desc2.order < desc1.order then desc2 else desc1

theorem policyDescMerge_of_not_lt {desc1 desc2 : Desc}
    (keep : desc2.id = 0 ∨ desc1.order ≤ desc2.order) : policyDescMerge desc1 desc2 = desc1 := by
  simp only [policyDescMerge]
  rw [if_neg (by omega)]

theorem policyDescMerge_of_lt {desc1 desc2 : Desc} (pos : 0 < desc2.id)
    (lt : desc2.order < desc1.order) : policyDescMerge desc1 desc2 = desc2 := by
  simp [policyDescMerge, pos, lt]

def remoteOf (k : RuleKey) (isIngress : Bool) : Nat := if isIngress then k.sip else k.dip

def remoteZero (k : RuleKey) (isIngress : Bool) : RuleKey :=
  if isIngress then { k with sip := 0 } else { k with dip := 0 }

/-- The table part of `dpi_policy_lookup_by_key`, once every short-cut is passed: the raw lookup,
the FQDN merge, and for an external peer the merge with the lookup of remote address 0. -/
def tableLookup (env : PolicyEnv) (hdl : Hdl) (key : RuleKey) (isIngress isInternal : Bool) :
    Desc :=
  let d1 := dpiPolicyLookupByKeyRaw hdl key isIngress
  let d2 :=
    if hdl.flag &&& policyHdlFlagFqdn ≠ 0 then
      match env.policyMatchIpv4FqdnCode hdl (remoteOf key isIngress) key isIngress with
      | some desc2 => policyDescMerge d1 desc2
      | none => d1
    else d1
  if isInternal then { d2 with flags := d2.flags ||| policyDescInternal }
  else
    let d3 := policyDescMerge d2 (dpiPolicyLookupByKeyRaw hdl (remoteZero key isIngress) isIngress)
    { d3 with flags := d3.flags ||| policyDescExternal }

/-- The ingress half of `dpi_policy_lookup_by_key` after the handle and link-local checks. -/
def lookupIngress (env : PolicyEnv) (hdl : Hdl) (key : RuleKey) (desc : Desc)
    (isNbe checkSgm : Bool) : Desc :=
  let isInternal := env.dpiIsIp4Internal key.sip
  let iptype := env.dpiIp4Iptype key.sip
  if isInternal && hdl.applyDir &&& dpPolicyApplyIngress = 0 && iptype ≠ dpIptypeUwlip &&
      !isNbe && !checkSgm then
    -- east-west ingress traffic is always allowed
    { desc with id := 0, action := dpPolicyActionOpen,
                 flags := policyDescInternal |||
                   (if iptype = dpIptypeTunnelip then policyDescTunnel
                    else if iptype = dpIptypeHostip then policyDescHostip else 0) }
  else if iptype = dpIptypeUwlip && !env.thDetectUnmanagedWl then
    { desc with id := 0, action := dpPolicyActionOpen,
                 flags := if isInternal then policyDescInternal else policyDescExternal }
  else tableLookup env hdl key true isInternal

/-- The egress half of `dpi_policy_lookup_by_key` after the handle and link-local checks. -/
def lookupEgress (env : PolicyEnv) (hdl : Hdl) (key : RuleKey) (desc : Desc)
    (isNbe checkSgm : Bool) : Desc :=
  let isInternal := env.dpiIsIp4Internal key.dip
  let iptype := env.dpiIp4Iptype key.dip
  let ipv4Ent := env.fqdnIpv4Entry key.dip
  let isSrcInternal := env.dpiIsIp4Internal key.sip
  if isInternal && !isSrcInternal && hdl.applyDir &&& dpPolicyApplyEgress ≠ 0 then
    { desc with id := 0, action := dpPolicyActionOpen, flags := policyDescInternal }
  else if !isInternal && iptype = dpIptypeExtip then
    -- service external IP: implicitly warn or block
    { desc with id := 0,
                 action := if hdl.defAction = dpPolicyActionDeny then dpPolicyActionDeny
                   else dpPolicyActionViolate,
                 flags := desc.flags ||| policyDescExternal ||| policyDescSvcExtip,
                 order := 0xffffffff }
  else if isInternal && hdl.applyDir &&& dpPolicyApplyEgress = 0 && !ipv4Ent &&
      iptype ≠ dpIptypeHostip && iptype ≠ dpIptypeUwlip && !isNbe && !checkSgm then
    -- east-west egress traffic is always allowed
    { desc with id := 0, action := dpPolicyActionOpen, flags := policyDescInternal }
  else if iptype = dpIptypeUwlip && !env.thDetectUnmanagedWl then
    { desc with id := 0, action := dpPolicyActionOpen,
                 flags := if isInternal then policyDescInternal else policyDescExternal }
  else if isNbe && iptype = dpIptypeSvcip then
    { desc with id := 0, action := dpPolicyActionOpen, flags := policyDescInternal }
  else tableLookup env hdl key false isInternal

/-- `dpi_policy_lookup_by_key`. `desc` is the caller's descriptor, which the short-cuts update
only in part; `isNbe` is `_dpi_is_chk_nbe(p)`, false for a `NULL` packet. -/
def dpiPolicyLookupByKey (env : PolicyEnv) (hdl : Option Hdl) (sip dip dport proto app : Nat)
    (isIngress : Bool) (desc : Desc) (isNbe : Bool) : Desc :=
  let hdlVer := match hdl with | some h => h.ver | none => 0
  let result :=
    match hdl with
    | some hdl =>
      if env.thDisableNetPolicy then
        -- workload just created: allow traffic until the policy is configured
        { desc with id := 0, action := dpPolicyActionOpen,
                     flags := policyDescCheckVer ||| policyDescTmpOpen |||
                       (if env.dpiIsIp4Internal (if isIngress then sip else dip)
                        then policyDescInternal else policyDescExternal) }
      else if isInLinklocal sip || isInLinklocal dip then
        { desc with id := 0, action := dpPolicyActionOpen,
                     flags := policyDescCheckVer ||| policyDescInternal ||| policyDescLinkLocal }
      else
        let key : RuleKey := ⟨sip, dip, dport, proto, app⟩
        let checkSgm := env.gStrictGroupMode && decide (hdl.defAction = dpPolicyActionDeny)
        if isIngress then lookupIngress env hdl key desc isNbe checkSgm
        else lookupEgress env hdl key desc isNbe checkSgm
    | none =>
      { desc with id := 0, action := dpPolicyActionOpen,
                   flags := policyDescCheckVer ||| policyDescTmpOpen |||
                     (if env.dpiIsIp4Internal (if isIngress then sip else dip)
                      then policyDescInternal else policyDescExternal) }
  { result with hdlVer := hdlVer }

/-! ### When the table is consulted -/

/-- The lookup passes every short-cut and reaches `_dpi_policy_lookup_by_key`. -/
def consulted (env : PolicyEnv) (hdl : Hdl) (key : RuleKey) (isIngress isNbe : Bool) : Bool :=
  let checkSgm := env.gStrictGroupMode && decide (hdl.defAction = dpPolicyActionDeny)
  if isIngress then
    let isInternal := env.dpiIsIp4Internal key.sip
    let iptype := env.dpiIp4Iptype key.sip
    !env.thDisableNetPolicy && !(isInLinklocal key.sip || isInLinklocal key.dip) &&
      !(isInternal && hdl.applyDir &&& dpPolicyApplyIngress = 0 && iptype ≠ dpIptypeUwlip &&
        !isNbe && !checkSgm) &&
      !(iptype = dpIptypeUwlip && !env.thDetectUnmanagedWl)
  else
    let isInternal := env.dpiIsIp4Internal key.dip
    let iptype := env.dpiIp4Iptype key.dip
    !env.thDisableNetPolicy && !(isInLinklocal key.sip || isInLinklocal key.dip) &&
      !(isInternal && !env.dpiIsIp4Internal key.sip && hdl.applyDir &&& dpPolicyApplyEgress ≠ 0) &&
      !(!isInternal && iptype = dpIptypeExtip) &&
      !(isInternal && hdl.applyDir &&& dpPolicyApplyEgress = 0 && !env.fqdnIpv4Entry key.dip &&
        iptype ≠ dpIptypeHostip && iptype ≠ dpIptypeUwlip && !isNbe && !checkSgm) &&
      !(iptype = dpIptypeUwlip && !env.thDetectUnmanagedWl) &&
      !(isNbe && iptype = dpIptypeSvcip)

/-- Once the table is consulted, the result is `tableLookup` whatever descriptor came in. -/
theorem dpiPolicyLookupByKey_consulted {env : PolicyEnv} {hdl : Hdl} {key : RuleKey}
    {isIngress isNbe : Bool} (desc : Desc) (reached : consulted env hdl key isIngress isNbe = true) :
    dpiPolicyLookupByKey env (some hdl) key.sip key.dip key.dport key.proto key.app isIngress desc
        isNbe =
      { tableLookup env hdl key isIngress (env.dpiIsIp4Internal (remoteOf key isIngress)) with
          hdlVer := hdl.ver } := by
  cases isIngress with
  | true =>
    simp only [consulted, if_true, Bool.and_eq_true, Bool.not_eq_true'] at reached
    obtain ⟨⟨⟨disabled, linkLocal⟩, eastWest⟩, unmanaged⟩ := reached
    simp only [dpiPolicyLookupByKey, lookupIngress, remoteOf, disabled, linkLocal, eastWest,
      unmanaged, Bool.false_eq_true, if_false, if_true]
  | false =>
    simp only [consulted, Bool.false_eq_true, if_false, Bool.and_eq_true, Bool.not_eq_true']
      at reached
    obtain ⟨⟨⟨⟨⟨⟨disabled, linkLocal⟩, passing⟩, extip⟩, eastWest⟩, unmanaged⟩, svc⟩ := reached
    simp only [dpiPolicyLookupByKey, lookupEgress, remoteOf, disabled, linkLocal, passing, extip,
      eastWest, unmanaged, svc, Bool.false_eq_true, if_false]

end MicroSegment.Dp.Policy
