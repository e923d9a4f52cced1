import MicroSegment.Dp.PolicyRule

/-!
# Dataplane policy table: configuration messages

`dpi_policy_cfg` builds a handle across a `MSG_START` .. `MSG_END` batch of messages. The handle
under construction and the running rule order live in function-static variables; they are the
`hdl` and `order` fields of `CfgState`. At `MSG_END` the default ICMP rule is added (unless ICMP
policy is enabled) and `dpi_policy_update` installs the handle on every listed MAC that the
endpoint map knows.
-/

namespace MicroSegment.Dp.Policy

/-- `dpi_policy_rule_t`. -/
structure PolicyRuleCfg where
  id : Nat
  sip : Nat
  sipR : Nat
  dip : Nat
  dipR : Nat
  dport : Nat
  dportR : Nat
  proto : Nat
  action : Nat
  ingress : Bool
  vh : Bool
  fqdn : String
  appRules : List AppRule
  deriving DecidableEq, Repr

/-- `struct ether_addr`. -/
structure EtherAddr where
  octets : List Nat
  deriving DecidableEq, Repr

/-- `dpi_policy_t`. -/
structure PolicyCfgMsg where
  macList : List EtherAddr
  defAction : Nat
  applyDir : Nat
  ruleList : List PolicyRuleCfg

/-- The endpoint fields `dpi_policy_update` writes. -/
structure Ep where
  policyHdl : Option Hdl
  policyVer : Nat

/-- What `dpi_policy_cfg` keeps between messages: its static handle and rule order, the static
policy version counter, and the endpoint map `g_ep_map`. -/
structure CfgState where
  hdl : Option Hdl
  order : Nat
  policyVer : Nat
  epMap : EtherAddr → Option Ep

def getNewPolicyVer (ver : Nat) : Nat :=
  if (ver + 1) % 0x10000 ≠ 0 then (ver + 1) % 0x10000 else 1

/-- The descriptor `dpi_policy_cfg` gives the rule of running order `order`. -/
def ruleDesc (rule : PolicyRuleCfg) (order : Nat) : Desc :=
  ⟨rule.id, rule.action, policyDescCheckVer, 0, order⟩

def ruleKey (rule : PolicyRuleCfg) : RuleKey := ⟨rule.sip, rule.dip, rule.dport, rule.proto, 0⟩

def ruleKeyR (rule : PolicyRuleCfg) : Option RuleKey :=
  if rule.dport ≠ rule.dportR ∨ rule.sip ≠ rule.sipR ∨ rule.dip ≠ rule.dipR then
    some ⟨rule.sipR, rule.dipR, rule.dportR, rule.proto, 0⟩
  else none

/-- The direction `dpi_policy_cfg` passes for a rule. -/
def ruleDir (rule : PolicyRuleCfg) : RuleDir := if rule.ingress then .ingress else .egress

def RuleKey.withProto (k : RuleKey) (proto : Nat) : RuleKey := { k with proto := proto }

/-- The `dpi_rule_add` calls for one rule: one call for a protocol, else TCP, UDP and, with ICMP
policy on, ICMP, passing on the keys as the previous call left them. -/
def addForProtos (env : PolicyEnv) (hdl : Hdl) (key : RuleKey) (keyR : Option RuleKey)
    (appRules : List AppRule) (dir : RuleDir) (desc : Desc) : Hdl :=
  if 0 < key.proto then (dpiRuleAdd env hdl key keyR appRules dir desc).2.1
  else
    let (_, hdl, key, keyR) := dpiRuleAdd env hdl (key.withProto ipprotoTcp)
      (keyR.map (·.withProto ipprotoTcp)) appRules dir desc
    let (_, hdl, key, keyR) := dpiRuleAdd env hdl (key.withProto ipprotoUdp)
      (keyR.map (·.withProto ipprotoUdp)) appRules dir desc
    if env.gEnableIcmpPolicy then
      (dpiRuleAdd env hdl (key.withProto ipprotoIcmp) (keyR.map (·.withProto ipprotoIcmp))
        appRules dir desc).2.1
    else hdl

/-- One pass of the rule loop of `dpi_policy_cfg`: the handle and the running order after it.
An FQDN rule gets the code of its name as remote address, or is skipped when there is none. -/
def cfgRule (env : PolicyEnv) (hdl : Hdl) (order : Nat) (rule : PolicyRuleCfg) : Hdl × Nat :=
  let resolved : Option (PolicyRuleCfg × Hdl) :=
    if rule.fqdn = "" then some (rule, hdl)
    else
      match env.configFqdnIpv4Mapping rule.fqdn (if rule.ingress then rule.sip else rule.dip)
          rule.vh with
      | none => none
      | some code =>
        some (if rule.ingress then { rule with sip := code, sipR := code }
              else { rule with dip := code, dipR := code },
              { hdl with flag := hdl.flag ||| policyHdlFlagFqdn })
  match resolved with
  | none => (hdl, order)
  | some (rule, hdl) =>
    (addForProtos env hdl (ruleKey rule) (ruleKeyR rule) rule.appRules (ruleDir rule)
      (ruleDesc rule (order + 1)), order + 1)

/-- The rule loop of `dpi_policy_cfg`. -/
def cfgRules (env : PolicyEnv) (hdl : Hdl) (order : Nat) (rules : List PolicyRuleCfg) : Hdl × Nat :=
  rules.foldl (fun acc rule => cfgRule env acc.1 acc.2 rule) (hdl, order)

def icmpDefaultL : RuleKey := ⟨0, 0, 0, ipprotoIcmp, 0⟩

def icmpDefaultH : RuleKey := ⟨0xffffffff, 0xffffffff, 0, ipprotoIcmp, 0⟩

def icmpDefaultDesc : Desc := ⟨defaultIcmpPassPolicyId, dpPolicyActionAllow, 0, 0, 0xffffffff⟩

/-- `dpi_add_default_policy`: allow all ICMP traffic, in the list without a direction. -/
def dpiAddDefaultPolicy (env : PolicyEnv) (hdl : Hdl) : Hdl :=
  (dpiRuleAdd env hdl icmpDefaultL (some icmpDefaultH) [] .none icmpDefaultDesc).2.1

/-- `dpi_policy_update`: the handle goes to the endpoint of the MAC, when there is one. -/
def dpiPolicyUpdate (epMap : EtherAddr → Option Ep) (mac : EtherAddr) (hdl : Option Hdl) :
    EtherAddr → Option Ep :=
  match epMap mac with
  | none => epMap
  | some _ =>
    Function.update epMap mac
      (some ⟨hdl, match hdl with | some h => h.ver | none => 0⟩)

def finishHdl (env : PolicyEnv) (flag : Nat) (hdl : Hdl) : Hdl :=
  if flag &&& msgEnd ≠ 0 ∧ !env.gEnableIcmpPolicy then dpiAddDefaultPolicy env hdl else hdl

/-- `dpi_policy_cfg`: the return value and the state after one message. -/
def dpiPolicyCfg (env : PolicyEnv) (cmd : Nat) (p : PolicyCfgMsg) (flag : Nat) (s : CfgState) :
    Int × CfgState :=
  if flag &&& msgStart = 0 ∧ s.hdl = none then (-1, s)
  else
    -- a MSG_START drops the half-built handle of an unfinished batch
    let s := if flag &&& msgStart ≠ 0 then { s with hdl := none } else s
    let s :=
      if cmd ≠ cfgDelete then
        let s :=
          if flag &&& msgStart ≠ 0 then
            let ver := getNewPolicyVer s.policyVer
            { s with hdl := some { dpiPolicyHdlInit p.defAction with applyDir := p.applyDir, ver := ver },
                     order := 0, policyVer := ver }
          else s
        match s.hdl with
        | none => s
        | some hdl =>
          let built := cfgRules env hdl s.order p.ruleList
          { s with hdl := some (finishHdl env flag built.1), order := built.2 }
      else
        match s.hdl with
        | none => s
        | some _ => { s with hdl := none, order := 0 }
    if flag &&& msgEnd = 0 then (0, s)
    else (0, { s with hdl := none,
                      epMap := p.macList.foldl (fun m mac => dpiPolicyUpdate m mac s.hdl) s.epMap })

theorem ruleDir_ingress (rule : PolicyRuleCfg) : decide (ruleDir rule = .ingress) = rule.ingress := by
  cases h : rule.ingress <;> simp [ruleDir, h]

theorem getRangeKey_ruleDir (rule : PolicyRuleCfg) {keyL keyH : RuleKey}
    (proto : keyL.proto = keyH.proto) :
    getRangeKey keyL keyH (ruleDir rule) = some (rangeKeyOf keyL rule.ingress) := by
  cases h : rule.ingress <;> simp [getRangeKey, ruleDir, rangeKeyOf, h, proto]

theorem cfgRule_of_plain (env : PolicyEnv) (hdl : Hdl) (order : Nat) {rule : PolicyRuleCfg}
    (fqdn : rule.fqdn = "") (proto : 0 < rule.proto) :
    cfgRule env hdl order rule =
      ((dpiRuleAdd env hdl (ruleKey rule) (ruleKeyR rule) rule.appRules (ruleDir rule)
        (ruleDesc rule (order + 1))).2.1, order + 1) := by
  simp [cfgRule, addForProtos, fqdn, ruleKey, proto]

theorem cfgRules_append (env : PolicyEnv) (hdl : Hdl) (order : Nat) (rs ts : List PolicyRuleCfg) :
    cfgRules env hdl order (rs ++ ts) =
      cfgRules env (cfgRules env hdl order rs).1 (cfgRules env hdl order rs).2 ts := by
  simp [cfgRules, List.foldl_append]

theorem cfgRules_cons (env : PolicyEnv) (hdl : Hdl) (order : Nat) (rule : PolicyRuleCfg)
    (rest : List PolicyRuleCfg) :
    cfgRules env hdl order (rule :: rest) =
      cfgRules env (cfgRule env hdl order rule).1 (cfgRule env hdl order rule).2 rest := rfl

theorem cfgRules_singleton (env : PolicyEnv) (hdl : Hdl) (order : Nat) (rule : PolicyRuleCfg) :
    cfgRules env hdl order [rule] = cfgRule env hdl order rule := rfl

end MicroSegment.Dp.Policy
