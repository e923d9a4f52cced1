import MicroSegment.Agent.DpCtrl
import MicroSegment.Dp.PolicyCfg

/-!
# Dataplane control: policy messages (`dp/ctrl.c`)

`dp_ctrl_cfg_policy` decodes a `ctrl_cfg_policy` message into a `dpi_policy_t` and hands it to
`dpi_policy_cfg`. The JSON between the agent and the dataplane is taken as faithful, so the
dataplane reads the agent's `DPPolicyCfg` itself; `ether_aton_r` is the parameter `etherAton`.

The messages of one batch, applied in order, leave the dataplane in the state that one message
with all the rules leaves (`dpCtrlCfgPolicyMsgs_batch`), so the agent's chunked transfer refines
a transfer of one message (`dpCtrlConfigPolicy_refines`).
-/

namespace MicroSegment.Dp.Policy

open MicroSegment.Agent

def maxFqdnLen : Nat := 256

def strlcpy (src : String) (size : Nat) : String :=
  String.ofList (src.toList.take (size - 1))

def decodeApp (app : DPPolicyApp) : AppRule :=
  ⟨app.ruleID, app.app, app.action⟩

def decodeRule (rule : DPPolicyIPRule) : PolicyRuleCfg :=
  ⟨rule.id, rule.srcIP, rule.srcIPR.getD rule.srcIP, rule.dstIP, rule.dstIPR.getD rule.dstIP,
    rule.port, rule.portR, rule.ipProto, rule.action, rule.ingress, rule.vhost,
    strlcpy rule.fqdn maxFqdnLen, rule.apps.map decodeApp⟩

/-- The `dpi_policy_t` of a message. -/
def decodePolicy (etherAton : String → EtherAddr) (msg : DPPolicyCfg) : PolicyCfgMsg :=
  ⟨msg.workloadMac.map etherAton, msg.defAction, msg.applyDir, msg.ipRules.map decodeRule⟩

/-- `dp_ctrl_cfg_policy`: a message without MACs is refused; otherwise the return value of
`dpi_policy_cfg` is dropped and the function returns 0. -/
def dpCtrlCfgPolicy (env : PolicyEnv) (etherAton : String → EtherAddr) (msg : DPPolicyCfg)
    (s : CfgState) : Int × CfgState :=
  if msg.workloadMac = [] then (-1, s)
  else (0, (dpiPolicyCfg env msg.cmd (decodePolicy etherAton msg) msg.flag s).2)

def dpCtrlCfgPolicyMsgs (env : PolicyEnv) (etherAton : String → EtherAddr) (s : CfgState)
    (msgs : List DPPolicyCfg) : CfgState :=
  msgs.foldl (fun s msg => (dpCtrlCfgPolicy env etherAton msg s).2) s

theorem dpiPolicyCfg_continue (env : PolicyEnv) {cmd : Nat} (notDelete : cmd ≠ cfgDelete)
    (p : PolicyCfgMsg) (rs ts : List PolicyRuleCfg) {flag : Nat} (cont : flag = 0 ∨ flag = msgEnd)
    (s : CfgState) :
    (dpiPolicyCfg env cmd { p with ruleList := ts } flag
        (dpiPolicyCfg env cmd { p with ruleList := rs } msgStart s).2).2 =
      (dpiPolicyCfg env cmd { p with ruleList := rs ++ ts } (msgStart ||| flag) s).2 := by
  rcases cont with rfl | rfl <;>
    simp [dpiPolicyCfg, notDelete, msgStart, msgEnd, finishHdl, cfgRules_append]

theorem dpCtrlCfgPolicy_continue (env : PolicyEnv) (etherAton : String → EtherAddr)
    (policy : DPWorkloadIPPolicy) {cmd : Nat} (notDelete : cmd ≠ cfgDelete)
    (rs ts : List DPPolicyIPRule) {flag : Nat} (cont : flag = 0 ∨ flag = msgEnd) (s : CfgState) :
    (dpCtrlCfgPolicy env etherAton (cfgMsg policy cmd flag ts)
        (dpCtrlCfgPolicy env etherAton (cfgMsg policy cmd msgStart rs) s).2).2 =
      (dpCtrlCfgPolicy env etherAton (cfgMsg policy cmd (msgStart ||| flag) (rs ++ ts)) s).2 := by
  by_cases noMacs : policy.workloadMac = []
  · simp [dpCtrlCfgPolicy, noMacs]
  · simp only [dpCtrlCfgPolicy, cfgMsg_workloadMac, noMacs, if_false, cfgMsg_cmd, cfgMsg_flag]
    -- the messages of one policy decode to one header with their own rules
    have merged := dpiPolicyCfg_continue env notDelete
      (decodePolicy etherAton (cfgMsg policy cmd 0 [])) (rs.map decodeRule) (ts.map decodeRule)
      cont s
    rw [← List.map_append] at merged
    exact merged

theorem restFlag_cont (last : Bool) :
    (if last then msgEnd else 0) = 0 ∨ (if last then msgEnd else 0) = msgEnd := by
  cases last <;> simp

theorem batchMsgs_cons_cons (policy : DPWorkloadIPPolicy) (cmd : Nat)
    (c c' : List DPPolicyIPRule) (cs : List (List DPPolicyIPRule)) :
    batchMsgs policy cmd true (c :: c' :: cs) =
      cfgMsg policy cmd msgStart c ::
        cfgMsg policy cmd (if cs.isEmpty then msgEnd else 0) c' ::
          batchMsgs policy cmd false cs := by
  simp [batchMsgs]

/-- The messages of a batch leave the dataplane as the batch's single message with all its
rules does. By induction on the chunks after the first, merging the first two each time. -/
theorem dpCtrlCfgPolicyMsgs_batch (env : PolicyEnv) (etherAton : String → EtherAddr)
    (policy : DPWorkloadIPPolicy) {cmd : Nat} (notDelete : cmd ≠ cfgDelete)
    (c : List DPPolicyIPRule) (cs : List (List DPPolicyIPRule)) (s : CfgState) :
    dpCtrlCfgPolicyMsgs env etherAton s (batchMsgs policy cmd true (c :: cs)) =
      dpCtrlCfgPolicyMsgs env etherAton s (batchMsgs policy cmd true [(c :: cs).flatten]) := by
  induction cs generalizing c with
  | nil => simp
  | cons c' cs ih =>
    have merged : batchMsgs policy cmd true ((c ++ c') :: cs) =
        cfgMsg policy cmd (msgStart ||| if cs.isEmpty then msgEnd else 0) (c ++ c') ::
          batchMsgs policy cmd false cs := by
      simp [batchMsgs]
    have first := dpCtrlCfgPolicy_continue env etherAton policy notDelete c c'
      (restFlag_cont cs.isEmpty) s
    rw [batchMsgs_cons_cons, dpCtrlCfgPolicyMsgs, List.foldl_cons, List.foldl_cons, first,
      ← List.foldl_cons, ← merged, ← dpCtrlCfgPolicyMsgs, ih]
    simp

/-- The agent's transfer refines one message with all the rules: when `DPCtrlConfigPolicy`
returns 0, the dataplane that handles what it sent ends where it would have after
`MSG_START | MSG_END` with the whole rule list, for the commands the agent sends. -/
theorem dpCtrlConfigPolicy_refines (env : PolicyEnv) (etherAton : String → EtherAddr)
    (jsonLen : DPPolicyCfg → Nat) (dpSendMsg : DPPolicyCfg → Int) (limit : Nat)
    (policy : DPWorkloadIPPolicy) {cmd : Nat} (notDelete : cmd ≠ cfgDelete)
    {out : List DPPolicyCfg}
    (done : dpCtrlConfigPolicy jsonLen dpSendMsg limit policy cmd = .ret 0 out) (s : CfgState) :
    dpCtrlCfgPolicyMsgs env etherAton s out =
      (dpCtrlCfgPolicy env etherAton
        (cfgMsg policy cmd (msgStart ||| msgEnd) policy.ipRules) s).2 := by
  obtain ⟨⟨chunks, flatten, nonempty, -⟩, rfl⟩ :=
    dpCtrlConfigPolicy_transfer jsonLen dpSendMsg limit policy cmd done
  obtain ⟨c, cs, rfl⟩ := List.exists_cons_of_ne_nil nonempty
  rw [dpCtrlCfgPolicyMsgs_batch env etherAton policy notDelete, flatten]
  simp [dpCtrlCfgPolicyMsgs, batchMsgs]

end MicroSegment.Dp.Policy
