import Mathlib

/-!
# Dataplane policy table: data

The records of `dpi_policy.h` and `apis.h` that the policy table reads and writes. Addresses are
kept in host byte order, the value `ntohl` gives: the range test compares `ntohl` of both ends,
and the exact map compares keys with `memcmp`, which no byte order changes. Identifiers, orders
and flags are `Nat`: none of them is near its C width for any rule list a handle can hold.
-/

namespace MicroSegment.Dp.Policy

/-! ### Constants of `defs.h`, `apis.h` and `dpi_policy.h` -/

def dpPolicyActionOpen : Nat := 0
def dpPolicyActionLearn : Nat := 1
def dpPolicyActionAllow : Nat := 2
def dpPolicyActionCheckVh : Nat := 3
def dpPolicyActionCheckNbe : Nat := 4
def dpPolicyActionCheckApp : Nat := 5
def dpPolicyActionViolate : Nat := 6
def dpPolicyActionDeny : Nat := 7

def dpPolicyApplyEgress : Nat := 0x1
def dpPolicyApplyIngress : Nat := 0x2

def dpPolicyAppUnknown : Nat := 0xffffffff

def dpIptypeNone : Nat := 0
def dpIptypeTunnelip : Nat := 1
def dpIptypeSvcip : Nat := 2
def dpIptypeHostip : Nat := 3
def dpIptypeDevip : Nat := 4
def dpIptypeUwlip : Nat := 5
def dpIptypeExtip : Nat := 6

def policyDescCheckVer : Nat := 0x0001
def policyDescInternal : Nat := 0x0002
def policyDescExternal : Nat := 0x0004
def policyDescTunnel : Nat := 0x0008
def policyDescSvcExtip : Nat := 0x0020
def policyDescHostip : Nat := 0x0040
def policyDescLinkLocal : Nat := 0x0100
def policyDescTmpOpen : Nat := 0x0200

def dpRangeRuleIngress : Nat := 1
def dpRangeRuleEgress : Nat := 2

def policyHdlFlagFqdn : Nat := 0x01

def defaultIcmpPassPolicyId : Nat := 0

def ipprotoIcmp : Nat := 1
def ipprotoTcp : Nat := 6
def ipprotoUdp : Nat := 17

def msgStart : Nat := 0x1
def msgEnd : Nat := 0x2
def cfgAdd : Nat := 1
def cfgModify : Nat := 2
def cfgDelete : Nat := 3

def isInLinklocal (ip : Nat) : Bool := ip / 0x10000 % 0x10000 = 0xA9FE

/-- `dpi_rule_key_t`. -/
structure RuleKey where
  sip : Nat
  dip : Nat
  dport : Nat
  proto : Nat
  app : Nat
  deriving DecidableEq, Repr

/-- `dpi_policy_desc_t`, without its padding. -/
structure Desc where
  id : Nat
  action : Nat
  flags : Nat
  hdlVer : Nat
  order : Nat
  deriving DecidableEq, Repr

def Desc.zero : Desc := ⟨0, 0, 0, 0, 0⟩

/-- `dpi_range_rule_key_t`: the range list a rule lives in. -/
structure RangeKey where
  ip : Nat
  proto : Nat
  flag : Nat
  deriving DecidableEq, Repr

/-- `dpi_range_rule_item_t`: one rule of a range list, its bounds and its descriptor. -/
structure RangeItem where
  desc : Desc
  keyL : RuleKey
  keyH : RuleKey
  deriving DecidableEq, Repr

/-- The direction argument of `dpi_rule_add` (`POLICY_RULE_DIR_*`). -/
inductive RuleDir where
  | egress
  | ingress
  | none
  deriving DecidableEq, Repr

/-- `dpi_policy_hdl_t`. `policyMap` is the exact map in insertion order; `rangePolicyMap` gives
the list of every range key, empty where `rcu_map_lookup` finds no `dpi_range_rule_t`. -/
structure Hdl where
  policyMap : List (RuleKey × Desc)
  rangePolicyMap : RangeKey → List RangeItem
  defAction : Nat
  applyDir : Nat
  flag : Nat
  ver : Nat

/-- `dpi_policy_hdl_init`: both maps empty. -/
def dpiPolicyHdlInit (defAction : Nat) : Hdl :=
  ⟨[], fun _ => [], defAction, 0, 0, 0⟩

/-- `dpi_policy_app_rule_t`. -/
structure AppRule where
  ruleId : Nat
  app : Nat
  action : Nat
  deriving DecidableEq, Repr

/-- What the policy code reads outside the handle: the address classifiers of `dpi_entry.c`,
the thread and global switches, and the FQDN tables (`g_fqdn_hdl`). `policyMatchIpv4FqdnCode`
stands for `policy_match_ipv4_fqdn_code`, `some desc2` when it returns a positive count, and
`configFqdnIpv4Mapping` for `config_fqdn_ipv4_mapping`, `none` where it returns -1. -/
structure PolicyEnv where
  dpiIsIp4Internal : Nat → Bool
  dpiIp4Iptype : Nat → Nat
  thDisableNetPolicy : Bool
  gStrictGroupMode : Bool
  thDetectUnmanagedWl : Bool
  gEnableIcmpPolicy : Bool
  fqdnIpv4Entry : Nat → Bool
  policyMatchIpv4FqdnCode : Hdl → Nat → RuleKey → Bool → Option Desc
  configFqdnIpv4Mapping : String → Nat → Bool → Option Nat

theorem hdlInit_policyMap (defAction : Nat) : (dpiPolicyHdlInit defAction).policyMap = [] := rfl

theorem hdlInit_range (defAction : Nat) (k : RangeKey) :
    (dpiPolicyHdlInit defAction).rangePolicyMap k = [] := rfl

end MicroSegment.Dp.Policy
