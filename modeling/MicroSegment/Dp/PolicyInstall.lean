import MicroSegment.Dp.PolicyBuild

/-!
# Dataplane policy table: first match after a configuration batch

A `MSG_START | MSG_END` message of `dpi_policy_cfg` builds a handle from its rule list, adds the
default ICMP rule when ICMP policy is off, and installs the handle on every listed MAC the endpoint
map knows. `dpiPolicyCfg_first_match` states what a lookup on that handle returns once it passes
the short-cuts: the rule id and action `expectedVerdict` gives, the first matching rule of the
list, else the default ICMP rule, else the default action.
-/

namespace MicroSegment.Dp.Policy

open FirstMatch

def expectedVerdict (env : PolicyEnv) (defAction : Nat) (rs : List PolicyRuleCfg) (k : RuleKey)
    (isIngress : Bool) : Nat × Nat :=
  match firstMatch env rs k isIngress with
  | some r => (r.id, r.action)
  | none =>
    if !env.gEnableIcmpPolicy && k.proto == ipprotoIcmp && k.dport == 0 &&
        decide (k.sip ≤ 0xffffffff) && decide (k.dip ≤ 0xffffffff) then
      (defaultIcmpPassPolicyId, dpPolicyActionAllow)
    else (0, defAction)

def icmpNoDirKey : RangeKey := ⟨0, ipprotoIcmp, 0⟩

def icmpDefaultItem : RangeItem := ⟨icmpDefaultDesc, icmpDefaultL, icmpDefaultH⟩

theorem dpiAddDefaultPolicy_of_empty (env : PolicyEnv) {h : Hdl}
    (empty : h.rangePolicyMap icmpNoDirKey = []) :
    dpiAddDefaultPolicy env h = h.setRange icmpNoDirKey [icmpDefaultItem] := by
  have hkey : getRangeKey icmpDefaultL icmpDefaultH .none = some icmpNoDirKey := rfl
  rcases dpiRangeRuleAdd_cases h icmpDefaultDesc Desc.zero hkey with ⟨p, mem, -⟩ | eq
  · simp [empty] at mem
  · -- a new item without a rule id: no rule for any application follows it
    simp only [dpiAddDefaultPolicy, dpiRuleAdd, dpiRuleAddOne, eq]
    simp [anyAppPass, icmpDefaultDesc, defaultIcmpPassPolicyId, empty, icmpDefaultItem]

theorem Built.setNoDir {env : PolicyEnv} {rs : List PolicyRuleCfg} {h : Hdl}
    (built : Built env rs h) {L : RangeKey} (flag : L.flag = 0) {items : List RangeItem}
    (noOrder : ∀ x ∈ items, x.desc.id = 0 ∧ x.desc.order = 0xffffffff) :
    Built env rs (h.setRange L items) := by
  have other : ∀ L', L'.flag ≠ 0 → (h.setRange L items).rangePolicyMap L' = h.rangePolicyMap L' :=
    fun L' f => setRange_other _ _ (by rintro rfl; exact f flag)
  exact {
    flag := built.flag
    exactSound := built.exactSound
    exactComplete := built.exactComplete
    rangeSound := fun L' f => by rw [other L' f]; exact built.rangeSound L' f
    rangeBound := fun L' f => by rw [other L' f]; exact built.rangeBound L' f
    rangeSorted := fun L' f => by rw [other L' f]; exact built.rangeSorted L' f
    mainFirst := fun L' pre x post f => by rw [other L' f]; exact built.mainFirst L' pre x post f
    mainPresent := fun i r get range => by
      rw [other _ (ruleRangeKey_flag r)]
      exact built.mainPresent i r get range
    noDir := fun L' f => by
      by_cases same : L' = L
      · subst same
        rw [setRange_same]
        exact noOrder
      · rw [setRange_other _ _ same]
        exact built.noDir L' f }

theorem icmpDefaultItem_holds {k : RuleKey} (app : k.app = 0) :
    ruleKeyInRange icmpDefaultItem k =
      (k.dport == 0 && decide (k.sip ≤ 0xffffffff) && decide (k.dip ≤ 0xffffffff)) := by
  rw [Bool.eq_iff_iff]
  simp only [ruleKeyInRange, Bool.and_eq_true, isXInRange_iff, beq_iff_eq, decide_eq_true_eq]
  simp only [icmpDefaultItem, icmpDefaultL, icmpDefaultH, app]
  omega

theorem finishHdl_of_empty (env : PolicyEnv) {h : Hdl}
    (empty : h.rangePolicyMap icmpNoDirKey = []) :
    finishHdl env (msgStart ||| msgEnd) h =
      if env.gEnableIcmpPolicy then h else h.setRange icmpNoDirKey [icmpDefaultItem] := by
  cases icmp : env.gEnableIcmpPolicy
  · rw [finishHdl, if_pos (by simp [icmp, msgStart, msgEnd]), dpiAddDefaultPolicy_of_empty env empty]
    rfl
  · rw [finishHdl, if_neg (by simp [icmp])]
    rfl

theorem noDirResult_finish (env : PolicyEnv) {h : Hdl}
    (empty : ∀ L : RangeKey, L.flag = 0 → h.rangePolicyMap L = []) {k : RuleKey} (app : k.app = 0) :
    (noDirResult (finishHdl env (msgStart ||| msgEnd) h) k).verdict =
      if !env.gEnableIcmpPolicy && k.proto == ipprotoIcmp && k.dport == 0 &&
          decide (k.sip ≤ 0xffffffff) && decide (k.dip ≤ 0xffffffff) then
        (defaultIcmpPassPolicyId, dpPolicyActionAllow)
      else (0, h.defAction) := by
  have noMatch : ∀ h' : Hdl, h'.rangePolicyMap (noDirKey k) = [] →
      (noDirResult h' k).verdict = (0, h'.defAction) := by
    intro h' nil
    simp [noDirResult, nil, dpiRangeRuleMatch, noMatchDesc, Desc.verdict]
  cases icmp : env.gEnableIcmpPolicy
  · rw [finishHdl, if_pos (by simp [icmp, msgStart, msgEnd]),
      dpiAddDefaultPolicy_of_empty env (empty _ rfl)]
    by_cases proto : k.proto = ipprotoIcmp
    · -- the ICMP list holds the one item
      have key : noDirKey k = icmpNoDirKey := by simp [noDirKey, icmpNoDirKey, proto]
      have cond : (!false && k.proto == ipprotoIcmp && k.dport == 0 &&
          decide (k.sip ≤ 0xffffffff) && decide (k.dip ≤ 0xffffffff)) =
          ruleKeyInRange icmpDefaultItem k := by
        simp [proto, icmpDefaultItem_holds app]
      rw [cond]
      cases holds : ruleKeyInRange icmpDefaultItem k <;>
        simp only [noDirResult, key, setRange_same, dpiRangeRuleMatch, List.find?_cons, holds,
          List.find?_nil]
      · simp [noMatchDesc, Desc.verdict]
      · simp [icmpDefaultItem, icmpDefaultDesc, Desc.verdict]
    · have key : noDirKey k ≠ icmpNoDirKey := by simp [noDirKey, icmpNoDirKey, proto]
      rw [noMatch _ (by rw [setRange_other _ _ key]; exact empty _ rfl)]
      simp [proto]
  · rw [finishHdl, if_neg (by simp [icmp]), noMatch h (empty _ rfl)]
    simp

theorem dpiPolicyUpdate_self (epMap : EtherAddr → Option Ep) (mac : EtherAddr) (hdl : Option Hdl)
    (known : (epMap mac).isSome) :
    dpiPolicyUpdate epMap mac hdl mac = some ⟨hdl, match hdl with | some h => h.ver | none => 0⟩ := by
  obtain ⟨ep, found⟩ := Option.isSome_iff_exists.mp known
  cases hdl <;> simp [dpiPolicyUpdate, found]

theorem dpiPolicyUpdate_other (epMap : EtherAddr → Option Ep) {mac mac' : EtherAddr}
    (hdl : Option Hdl) (other : mac' ≠ mac) : dpiPolicyUpdate epMap mac hdl mac' = epMap mac' := by
  unfold dpiPolicyUpdate
  cases epMap mac with
  | none => rfl
  | some _ => exact Function.update_of_ne other _ _

theorem foldl_dpiPolicyUpdate (hdl : Option Hdl) {mac : EtherAddr} :
    ∀ (macs : List EtherAddr) (epMap : EtherAddr → Option Ep), mac ∈ macs → (epMap mac).isSome →
      macs.foldl (fun m mac => dpiPolicyUpdate m mac hdl) epMap mac =
        some ⟨hdl, match hdl with | some h => h.ver | none => 0⟩ := by
  intro macs
  induction macs with
  | nil => simp
  | cons mac₀ rest ih =>
    intro epMap mem known
    simp only [List.foldl_cons]
    by_cases later : mac ∈ rest
    · -- a later update of the same MAC writes the same value
      refine ih _ later ?_
      by_cases same : mac = mac₀
      · subst same
        simp [dpiPolicyUpdate_self epMap mac hdl known]
      · rwa [dpiPolicyUpdate_other epMap hdl same]
    · obtain rfl : mac = mac₀ := by simpa [later] using mem
      -- no later update touches the MAC
      have keep : ∀ (macs : List EtherAddr) (m : EtherAddr → Option Ep), mac ∉ macs →
          macs.foldl (fun m mac => dpiPolicyUpdate m mac hdl) m mac = m mac := by
        intro macs
        induction macs with
        | nil => simp
        | cons mac₁ rest' ih' =>
          intro m notMem
          simp only [List.mem_cons, not_or] at notMem
          simp only [List.foldl_cons]
          rw [ih' _ notMem.2, dpiPolicyUpdate_other m hdl notMem.1]
      rw [keep rest _ later, dpiPolicyUpdate_self epMap mac hdl known]

def batchInit (p : PolicyCfgMsg) (s : CfgState) : Hdl :=
  { dpiPolicyHdlInit p.defAction with applyDir := p.applyDir, ver := getNewPolicyVer s.policyVer }

theorem dpiPolicyCfg_batch (env : PolicyEnv) {cmd : Nat} (p : PolicyCfgMsg) (s : CfgState)
    (notDelete : cmd ≠ cfgDelete) :
    (dpiPolicyCfg env cmd p (msgStart ||| msgEnd) s).2.epMap =
      p.macList.foldl (fun m mac => dpiPolicyUpdate m mac
        (some (finishHdl env (msgStart ||| msgEnd) (cfgRules env (batchInit p s) 0 p.ruleList).1)))
        s.epMap := by
  simp [dpiPolicyCfg, notDelete, msgStart, msgEnd, batchInit]

/-! ### First match -/

/-- After a `MSG_START | MSG_END` batch of rules of the first-match kind, every listed MAC the
endpoint map knows holds a handle; when the insertion lookup of every single-point rule passes the
short-cuts, a lookup of a key of application 0 that passes them returns the rule id and action of
the first matching rule, else of the default ICMP rule, else the default action. -/
theorem dpiPolicyCfg_first_match (env : PolicyEnv) (cmd : Nat) (p : PolicyCfgMsg) (s : CfgState)
    {mac : EtherAddr} (notDelete : cmd ≠ cfgDelete) (listed : mac ∈ p.macList)
    (known : (s.epMap mac).isSome) (ok : ∀ r ∈ p.ruleList, RuleCfgOk r)
    (short : p.ruleList.length < 0xffffffff)
    (safe : ∀ r ∈ p.ruleList, ruleKeyR r = none → LookupSafe env p.ruleList (ruleKey r) r.ingress) :
    ∃ hdl, ((dpiPolicyCfg env cmd p (msgStart ||| msgEnd) s).2.epMap mac).bind Ep.policyHdl =
        some hdl ∧
      ((∀ r ∈ p.ruleList, ruleKeyR r = none → consulted env hdl (ruleKey r) r.ingress false = true) →
        ∀ (k : RuleKey) (isIngress isNbe : Bool) (desc : Desc), k.app = 0 →
          LookupSafe env p.ruleList k isIngress → consulted env hdl k isIngress isNbe = true →
          (dpiPolicyLookupByKey env (some hdl) k.sip k.dip k.dport k.proto k.app isIngress desc
              isNbe).verdict = expectedVerdict env p.defAction p.ruleList k isIngress) := by
  refine ⟨finishHdl env (msgStart ||| msgEnd) (cfgRules env (batchInit p s) 0 p.ruleList).1, ?_,
    fun reached k isIngress isNbe desc app safeK consultedK => ?_⟩
  · rw [dpiPolicyCfg_batch env p s notDelete, foldl_dpiPolicyUpdate _ _ _ listed known]
    rfl
  · have init : Built env [] (batchInit p s) := Built.empty env rfl (fun _ => rfl) rfl
    obtain ⟨frame, -⟩ := cfgRules_frame env p.ruleList ok (batchInit p s) 0
    -- the lists without a direction are still empty, so the end adds the default ICMP rule alone
    have empty : ∀ L : RangeKey, L.flag = 0 →
        (cfgRules env (batchInit p s) 0 p.ruleList).1.rangePolicyMap L = [] :=
      fun L flag => frame.noDir L flag
    have finish := finishHdl_of_empty env (empty _ rfl)
    have header : (finishHdl env (msgStart ||| msgEnd)
        (cfgRules env (batchInit p s) 0 p.ruleList).1).applyDir = (batchInit p s).applyDir ∧
        (finishHdl env (msgStart ||| msgEnd)
          (cfgRules env (batchInit p s) 0 p.ruleList).1).defAction = (batchInit p s).defAction := by
      rw [finish]
      split <;> exact ⟨frame.applyDir, frame.defAction⟩
    -- the insertion lookups saw the header of the installed handle
    have built := cfgRules_built env init p.ruleList ok short
      (fun r m point => (consulted_congr header.1.symm header.2.symm _ _ _).trans (reached r m point))
      safe
    have builtEnd : Built env p.ruleList
        (finishHdl env (msgStart ||| msgEnd) (cfgRules env (batchInit p s) 0 p.ruleList).1) := by
      rw [finish]
      split
      · exact built
      · exact built.setNoDir rfl (by simp [icmpDefaultItem, icmpDefaultDesc, defaultIcmpPassPolicyId])
    rw [lookupByKey_verdict builtEnd ok short app safeK consultedK desc, expectedVerdict]
    cases firstMatch env p.ruleList k isIngress with
    | some r => rfl
    | none =>
      rw [noDirResult_finish env empty app, frame.defAction]
      rfl

def sampleEnv : PolicyEnv :=
  ⟨fun _ => false, fun _ => dpIptypeNone, false, false, false, false, fun _ => false,
    fun _ _ _ _ => none, fun _ _ _ => none⟩

def sampleMac : EtherAddr := ⟨[0x02, 0x42, 0xac, 0x11, 0x00, 0x02]⟩

def sampleState : CfgState :=
  ⟨none, 0, 0, fun mac => if mac = sampleMac then some ⟨none, 0⟩ else none⟩

def sampleRules : List PolicyRuleCfg :=
  [⟨1, 0x01020304, 0x01020304, 0x0a000001, 0x0a000001, 80, 80, ipprotoTcp, dpPolicyActionAllow,
      true, false, "", []⟩,
    ⟨2, 0, 0xffffffff, 0x0a000001, 0x0a000001, 0, 65535, ipprotoTcp, dpPolicyActionDeny,
      true, false, "", []⟩]

theorem dpiPolicyCfg_first_match_sample :
    (1 ≠ cfgDelete ∧ sampleMac ∈ [sampleMac] ∧ (sampleState.epMap sampleMac).isSome ∧
      (∀ r ∈ sampleRules, RuleCfgOk r) ∧ sampleRules.length < 0xffffffff ∧
      ∀ r ∈ sampleRules, ruleKeyR r = none →
        LookupSafe sampleEnv sampleRules (ruleKey r) r.ingress) ∧
    ∃ hdl, ((dpiPolicyCfg sampleEnv 1 ⟨[sampleMac], dpPolicyActionDeny, 0, sampleRules⟩
        (msgStart ||| msgEnd) sampleState).2.epMap sampleMac).bind Ep.policyHdl = some hdl ∧
      ((∀ r ∈ sampleRules, ruleKeyR r = none →
          consulted sampleEnv hdl (ruleKey r) r.ingress false = true) →
        ∀ (k : RuleKey) (isIngress isNbe : Bool) (desc : Desc), k.app = 0 →
          LookupSafe sampleEnv sampleRules k isIngress →
          consulted sampleEnv hdl k isIngress isNbe = true →
          (dpiPolicyLookupByKey sampleEnv (some hdl) k.sip k.dip k.dport k.proto k.app isIngress
              desc isNbe).verdict =
            expectedVerdict sampleEnv dpPolicyActionDeny sampleRules k isIngress) := by
  have ok : ∀ r ∈ sampleRules, RuleCfgOk r := by
    simp [sampleRules, RuleCfgOk, ipprotoTcp]
  -- every rule is an ingress rule, so no key meets one of the other direction
  have safe : ∀ r ∈ sampleRules, ruleKeyR r = none →
      LookupSafe sampleEnv sampleRules (ruleKey r) r.ingress := by
    simp [sampleRules, LookupSafe, CrossFree]
  exact ⟨⟨by decide, by simp, rfl, ok, by decide, safe⟩,
    dpiPolicyCfg_first_match sampleEnv 1 _ sampleState (by decide) (by simp) rfl ok (by decide) safe⟩

theorem icmp_default_answers_unmatched :
    ∃ hdl, ((dpiPolicyCfg sampleEnv 1 ⟨[sampleMac], dpPolicyActionDeny, 0, []⟩
        (msgStart ||| msgEnd) sampleState).2.epMap sampleMac).bind Ep.policyHdl = some hdl ∧
      consulted sampleEnv hdl ⟨0x01020304, 0x0a000001, 0, ipprotoIcmp, 0⟩ true false = true ∧
      firstMatch sampleEnv [] ⟨0x01020304, 0x0a000001, 0, ipprotoIcmp, 0⟩ true = none ∧
      (dpiPolicyLookupByKey sampleEnv (some hdl) 0x01020304 0x0a000001 0 ipprotoIcmp 0 true
          Desc.zero false).verdict = (defaultIcmpPassPolicyId, dpPolicyActionAllow) :=
  ⟨_, rfl, by decide, rfl, by decide⟩

/-! ### The insertion lookup on a handle of egress only -/

def eastWestEnv : PolicyEnv :=
  ⟨fun _ => true, fun _ => dpIptypeNone, false, false, false, false, fun _ => false,
    fun _ _ _ _ => none, fun _ _ _ => none⟩

def shadowRules : List PolicyRuleCfg :=
  [⟨1, 0, 0xffffffff, 0x0a000001, 0x0a000001, 0, 65535, ipprotoTcp, dpPolicyActionDeny,
      true, false, "", []⟩,
    ⟨2, 0x01020304, 0x01020304, 0x0a000001, 0x0a000001, 80, 80, ipprotoTcp, dpPolicyActionAllow,
      true, false, "", []⟩]

/-- On a handle that applies to egress only, the insertion lookup of the single-point ingress rule,
made with a `NULL` packet, takes the east-west short-cut and finds no rule, so the rule goes to the
exact map. A lookup for an endpoint that checks east-west traffic (`nbe`) reaches the table, where
the exact map answers first: the later ALLOW wins over the earlier range DENY. -/
theorem dpiPolicyCfg_exact_overrides_range :
    (∀ r ∈ shadowRules, RuleCfgOk r) ∧
    ∃ hdl, ((dpiPolicyCfg eastWestEnv 1
        ⟨[sampleMac], dpPolicyActionAllow, dpPolicyApplyEgress, shadowRules⟩
        (msgStart ||| msgEnd) sampleState).2.epMap sampleMac).bind Ep.policyHdl = some hdl ∧
      consulted eastWestEnv hdl ⟨0x01020304, 0x0a000001, 80, ipprotoTcp, 0⟩ true false = false ∧
      consulted eastWestEnv hdl ⟨0x01020304, 0x0a000001, 80, ipprotoTcp, 0⟩ true true = true ∧
      expectedVerdict eastWestEnv dpPolicyActionAllow shadowRules
          ⟨0x01020304, 0x0a000001, 80, ipprotoTcp, 0⟩ true = (1, dpPolicyActionDeny) ∧
      (dpiPolicyLookupByKey eastWestEnv (some hdl) 0x01020304 0x0a000001 80 ipprotoTcp 0 true
          Desc.zero true).verdict = (2, dpPolicyActionAllow) := by
  have ok : ∀ r ∈ shadowRules, RuleCfgOk r := by
    simp [shadowRules, RuleCfgOk, ipprotoTcp]
  exact ⟨ok, _, rfl, by decide, by decide, by decide, by decide⟩

end MicroSegment.Dp.Policy
