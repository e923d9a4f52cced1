import Mathlib
import MicroSegment.Dp.PolicyTypes

/-!
# Agent to dataplane: sending a workload's policy (`agent/dp/ctrl.go`)

`DPCtrlConfigPolicy` cuts the rule list of a policy into messages of at most `rulesPerMsg`
rules, starting at 40. A message whose JSON exceeds `maxMsgSize` bytes is not sent: the estimate
`rulesPerMsg` shrinks to `maxMsgSize / (size / rules + 1)` and the chunk is cut again (`retry`),
until it fits or the estimate reaches 0 (`rule too large`, -1). The first message carries
`MSG_START`, the one that takes the last rules `MSG_END`.

JSON encoding and the socket are outside the repository: the length of a message's encoding is
the parameter `jsonLen`, and `dpSendMsg` the send. Go's `net.IP` addresses are IPv4 words, an
omitted `sipr`/`dipr` is `none`. The estimate is a positive number: the code never stores 0.
-/

namespace MicroSegment.Agent

open MicroSegment.Dp.Policy

structure DPPolicyApp where
  app : Nat
  action : Nat
  ruleID : Nat
  deriving DecidableEq, Repr

structure DPPolicyIPRule where
  id : Nat
  srcIP : Nat
  dstIP : Nat
  srcIPR : Option Nat
  dstIPR : Option Nat
  port : Nat
  portR : Nat
  ipProto : Nat
  action : Nat
  ingress : Bool
  fqdn : String
  vhost : Bool
  apps : List DPPolicyApp
  deriving DecidableEq, Repr

/-- The fields of `DPWorkloadIPPolicy` that are sent. -/
structure DPWorkloadIPPolicy where
  defAction : Nat
  applyDir : Nat
  workloadMac : List String
  ipRules : List DPPolicyIPRule
  deriving DecidableEq, Repr

/-- `DPPolicyCfg`, the body of one `ctrl_cfg_policy` message. -/
structure DPPolicyCfg where
  cmd : Nat
  flag : Nat
  defAction : Nat
  applyDir : Nat
  workloadMac : List String
  ipRules : List DPPolicyIPRule
  deriving DecidableEq, Repr

def maxMsgSize : Nat := 8120

def chunkFlag (start num rulesPerMsg : Nat) : Nat :=
  (if start = 0 then msgStart else 0) ||| (if num ≤ rulesPerMsg then msgEnd else 0)

def chunkEnd (start num rulesPerMsg : Nat) : Nat :=
  if num ≤ rulesPerMsg then start + num else start + rulesPerMsg

def cfgMsg (policy : DPWorkloadIPPolicy) (cmd flag : Nat) (rules : List DPPolicyIPRule) :
    DPPolicyCfg :=
  ⟨cmd, flag, policy.defAction, policy.applyDir, policy.workloadMac, rules⟩

@[simp] theorem cfgMsg_cmd (policy : DPWorkloadIPPolicy) (cmd flag : Nat) (rules) :
    (cfgMsg policy cmd flag rules).cmd = cmd := rfl

@[simp] theorem cfgMsg_flag (policy : DPWorkloadIPPolicy) (cmd flag : Nat) (rules) :
    (cfgMsg policy cmd flag rules).flag = flag := rfl

@[simp] theorem cfgMsg_workloadMac (policy : DPWorkloadIPPolicy) (cmd flag : Nat) (rules) :
    (cfgMsg policy cmd flag rules).workloadMac = policy.workloadMac := rfl

@[simp] theorem cfgMsg_ipRules (policy : DPWorkloadIPPolicy) (cmd flag : Nat) (rules) :
    (cfgMsg policy cmd flag rules).ipRules = rules := rfl

/-- The message for `policy.IPRules[start:end]`. -/
def chunkMsg (policy : DPWorkloadIPPolicy) (cmd start num rulesPerMsg : Nat) : DPPolicyCfg :=
  cfgMsg policy cmd (chunkFlag start num rulesPerMsg)
    ((policy.ipRules.drop start).take (chunkEnd start num rulesPerMsg - start))

def shrinkRulesPerMsg (limit sz n rulesPerMsg : Nat) : Nat :=
  let newRulesPerMsg := limit / (sz / n + 1)
  if newRulesPerMsg = rulesPerMsg then newRulesPerMsg - 1 else newRulesPerMsg

theorem chunkEnd_sub (start num rulesPerMsg : Nat) :
    chunkEnd start num rulesPerMsg - start = min num rulesPerMsg := by
  unfold chunkEnd
  split <;> omega

theorem sub_chunkEnd (start num rulesPerMsg : Nat) :
    num + start - chunkEnd start num rulesPerMsg = num - min num rulesPerMsg := by
  unfold chunkEnd
  split <;> omega

theorem estimate_lt {limit sz n : Nat} (tooBig : limit < sz) (pos : 0 < n) :
    limit / (sz / n + 1) < n := by
  rw [Nat.div_lt_iff_lt_mul (Nat.succ_pos _)]
  calc limit < sz := tooBig
    _ < n * (sz / n + 1) := Nat.lt_mul_div_succ sz pos

theorem shrinkRulesPerMsg_eq {limit sz n rulesPerMsg : Nat} (tooBig : limit < sz) (pos : 0 < n)
    (le : n ≤ rulesPerMsg) : shrinkRulesPerMsg limit sz n rulesPerMsg = limit / (sz / n + 1) := by
  have fewer := estimate_lt tooBig pos
  simp only [shrinkRulesPerMsg]
  rw [if_neg (by omega)]

theorem shrinkRulesPerMsg_lt {limit sz n rulesPerMsg : Nat} (tooBig : limit < sz) (pos : 0 < n)
    (le : n ≤ rulesPerMsg) : shrinkRulesPerMsg limit sz n rulesPerMsg < rulesPerMsg := by
  rw [shrinkRulesPerMsg_eq tooBig pos le]
  exact Nat.lt_of_lt_of_le (estimate_lt tooBig pos) le

/-- What the `retry` loop ends with: a message to send, with the end of its chunk and the
estimate it leaves, or -1, or Go's division by zero on a chunk without rules. -/
inductive ChunkStep where
  | send (msg : DPPolicyCfg) (next : Nat) (rulesPerMsg : ℕ+)
  | tooLarge
  | divByZero

def retryChunk (jsonLen : DPPolicyCfg → Nat) (limit : Nat) (policy : DPWorkloadIPPolicy)
    (cmd start num : Nat) (rulesPerMsg : ℕ+) : ChunkStep :=
  let msg := chunkMsg policy cmd start num rulesPerMsg
  if _ : limit < jsonLen msg then
    if _ : chunkEnd start num rulesPerMsg - start = 0 then .divByZero
    else
      let newRulesPerMsg :=
        shrinkRulesPerMsg limit (jsonLen msg) (chunkEnd start num rulesPerMsg - start) rulesPerMsg
      if zero : newRulesPerMsg = 0 then .tooLarge
      else
        retryChunk jsonLen limit policy cmd start num ⟨newRulesPerMsg, Nat.pos_of_ne_zero zero⟩
  else .send msg (chunkEnd start num rulesPerMsg) rulesPerMsg
termination_by rulesPerMsg.val
decreasing_by
  exact shrinkRulesPerMsg_lt ‹_› (Nat.pos_of_ne_zero ‹_›)
    ((chunkEnd_sub start num rulesPerMsg).symm ▸ Nat.min_le_right _ _)

theorem retryChunk_send {jsonLen : DPPolicyCfg → Nat} {limit : Nat} {policy : DPWorkloadIPPolicy}
    {cmd start num : Nat} {rulesPerMsg : ℕ+} {msg : DPPolicyCfg} {next : Nat} {r : ℕ+}
    (sent : retryChunk jsonLen limit policy cmd start num rulesPerMsg = .send msg next r) :
    msg = chunkMsg policy cmd start num r ∧ next = chunkEnd start num r ∧
      jsonLen msg ≤ limit := by
  fun_induction retryChunk jsonLen limit policy cmd start num rulesPerMsg with
  | case1 => cases sent
  | case2 => cases sent
  | case3 =>
    rename_i ih
    exact ih sent
  | case4 rulesPerMsg _ fits =>
    simp only [ChunkStep.send.injEq] at sent
    obtain ⟨rfl, rfl, rfl⟩ := sent
    exact ⟨rfl, rfl, Nat.le_of_not_lt fits⟩

theorem retryChunk_divByZero {jsonLen : DPPolicyCfg → Nat} {limit : Nat}
    {policy : DPWorkloadIPPolicy} {cmd start num : Nat} {rulesPerMsg : ℕ+}
    (panics : retryChunk jsonLen limit policy cmd start num rulesPerMsg = .divByZero) :
    num = 0 ∧ limit < jsonLen (chunkMsg policy cmd start 0 rulesPerMsg) := by
  fun_induction retryChunk jsonLen limit policy cmd start num rulesPerMsg with
  | case1 rulesPerMsg _ tooBig empty =>
    have zero : num = 0 := by
      have := rulesPerMsg.pos
      rw [chunkEnd_sub] at empty
      omega
    subst zero
    exact ⟨rfl, tooBig⟩
  | case2 => cases panics
  | case3 =>
    rename_i ih
    exact ih panics
  | case4 => cases panics

theorem retryChunk_of_empty {jsonLen : DPPolicyCfg → Nat} {limit : Nat}
    {policy : DPWorkloadIPPolicy} {cmd start : Nat} {rulesPerMsg : ℕ+}
    (tooBig : limit < jsonLen (chunkMsg policy cmd start 0 rulesPerMsg)) :
    retryChunk jsonLen limit policy cmd start 0 rulesPerMsg = .divByZero := by
  rw [retryChunk, dif_pos tooBig, dif_pos (by simp [chunkEnd_sub])]

/-! ### The message loop -/

/-- How `DPCtrlConfigPolicy` ends: its return value and the messages it sent, or a Go runtime
panic after the messages it sent. A message `dpSendMsg` fails on is not counted as sent. -/
inductive CtrlResult where
  | ret (code : Int) (sent : List DPPolicyCfg)
  | panic (sent : List DPPolicyCfg)

def CtrlResult.sent : CtrlResult → List DPPolicyCfg
  | .ret _ sent => sent
  | .panic sent => sent

def sendLoop (jsonLen : DPPolicyCfg → Nat) (dpSendMsg : DPPolicyCfg → Int) (limit : Nat)
    (policy : DPWorkloadIPPolicy) (cmd start num : Nat) (rulesPerMsg : ℕ+) (first : Bool)
    (sent : List DPPolicyCfg) : CtrlResult :=
  if 0 < num ∨ first = true then
    match step : retryChunk jsonLen limit policy cmd start num rulesPerMsg with
    | .divByZero => .panic sent
    | .tooLarge => .ret (-1) sent
    | .send msg next r =>
      if dpSendMsg msg = -1 then .ret (-1) sent
      else sendLoop jsonLen dpSendMsg limit policy cmd next (num + start - next) r false
        (sent ++ [msg])
  else .ret 0 sent
termination_by num + if first then 1 else 0
decreasing_by
  obtain ⟨-, rfl, -⟩ := retryChunk_send step
  rw [sub_chunkEnd]
  -- the `if` that guards the loop: rules are left, or this is the first message
  rename_i going _
  have := r.pos
  cases first <;> simp only [Bool.false_eq_true, or_false, if_false, if_true] at going ⊢ <;> omega

/-- `DPCtrlConfigPolicy`, with `maxMsgSize` as the parameter `limit`. -/
def dpCtrlConfigPolicy (jsonLen : DPPolicyCfg → Nat) (dpSendMsg : DPPolicyCfg → Int)
    (limit : Nat) (policy : DPWorkloadIPPolicy) (cmd : Nat) : CtrlResult :=
  sendLoop jsonLen dpSendMsg limit policy cmd 0 policy.ipRules.length 40 true []

def batchMsgs (policy : DPWorkloadIPPolicy) (cmd : Nat) (first : Bool) :
    List (List DPPolicyIPRule) → List DPPolicyCfg
  | [] => []
  | rules :: chunks =>
    cfgMsg policy cmd ((if first then msgStart else 0) ||| (if chunks.isEmpty then msgEnd else 0))
        rules :: batchMsgs policy cmd false chunks

/-- A split of a rule list into consecutive chunks, in order; a chunk is empty only when it is
the only one. -/
structure Chunking (rules : List DPPolicyIPRule) where
  chunks : List (List DPPolicyIPRule)
  flatten : chunks.flatten = rules
  nonempty : chunks ≠ []
  single : ∀ c ∈ chunks, c = [] → chunks = [c]

def Chunking.whole (rules : List DPPolicyIPRule) : Chunking rules :=
  ⟨[rules], by simp, by simp, by simp⟩

/-- What holds at the top of each iteration: `start` and the `num` rules left cover the rule
list, and `start` is 0 until a message with rules is sent. -/
structure LoopInv (policy : DPWorkloadIPPolicy) (start num : Nat) (first : Bool) : Prop where
  covers : start + num = policy.ipRules.length
  atStart : first = true → start = 0
  moved : first = false → num = 0 ∨ 0 < start

section Loop

variable {policy : DPWorkloadIPPolicy} {start num : Nat} {first : Bool}

theorem LoopInv.chunkFlag_eq (inv : LoopInv policy start num first)
    (going : 0 < num ∨ first = true) (rulesPerMsg : Nat) :
    chunkFlag start num rulesPerMsg =
      (if first then msgStart else 0) ||| (if num ≤ rulesPerMsg then msgEnd else 0) := by
  have atStart : start = 0 ↔ first = true := by
    cases first with
    | true => simpa using inv.atStart rfl
    | false =>
      have := inv.moved rfl
      simp only [Bool.false_eq_true, or_false] at going
      simp only [Bool.false_eq_true, iff_false]
      omega
  simp only [chunkFlag, atStart]

theorem LoopInv.next (inv : LoopInv policy start num first) (r : ℕ+) :
    LoopInv policy (chunkEnd start num r) (num + start - chunkEnd start num r) false := by
  have covers := inv.covers
  have := r.pos
  refine ⟨?_, nofun, fun _ => ?_⟩ <;> unfold chunkEnd <;> split <;> omega

theorem chunk_rules (policy : DPWorkloadIPPolicy) (start num rulesPerMsg : Nat) :
    (chunkMsg policy cmd start num rulesPerMsg).ipRules =
      (policy.ipRules.drop start).take (min num rulesPerMsg) := by
  simp [chunkMsg, cfgMsg, chunkEnd_sub]

theorem chunk_append_drop (policy : DPWorkloadIPPolicy) (start num rulesPerMsg : Nat) :
    (policy.ipRules.drop start).take (min num rulesPerMsg) ++
        policy.ipRules.drop (chunkEnd start num rulesPerMsg) = policy.ipRules.drop start := by
  have skip : chunkEnd start num rulesPerMsg = start + min num rulesPerMsg := by
    unfold chunkEnd
    split <;> omega
  rw [skip, ← List.drop_drop, List.take_append_drop]

theorem chunk_eq_nil (inv : LoopInv policy start num first) (r : ℕ+) :
    (policy.ipRules.drop start).take (min num r) = [] ↔ num = 0 := by
  have covers := inv.covers
  have := r.pos
  rw [← List.length_eq_zero_iff, List.length_take, List.length_drop]
  omega

end Loop

section Run

variable (jsonLen : DPPolicyCfg → Nat) (dpSendMsg : DPPolicyCfg → Int) (limit : Nat)
  (policy : DPWorkloadIPPolicy) (cmd : Nat)

theorem sendLoop_of_divByZero (start num : Nat) (rulesPerMsg : ℕ+) (first : Bool)
    (sent : List DPPolicyCfg) (going : 0 < num ∨ first = true)
    (step : retryChunk jsonLen limit policy cmd start num rulesPerMsg = .divByZero) :
    sendLoop jsonLen dpSendMsg limit policy cmd start num rulesPerMsg first sent = .panic sent := by
  rw [sendLoop, if_pos going]
  -- the other two arms contradict `step`
  split <;> simp_all

theorem sendLoop_sent_fit (start num : Nat) (rulesPerMsg : ℕ+) (first : Bool)
    (sent : List DPPolicyCfg) :
    ∃ extra, (sendLoop jsonLen dpSendMsg limit policy cmd start num rulesPerMsg first sent).sent =
      sent ++ extra ∧ ∀ m ∈ extra, jsonLen m ≤ limit := by
  fun_induction sendLoop jsonLen dpSendMsg limit policy cmd start num rulesPerMsg first sent with
  | case1 | case2 | case3 | case5 => exact ⟨[], by simp [CtrlResult.sent], nofun⟩
  | case4 _ _ _ _ sent _ msg _ _ step _ ih =>
    obtain ⟨extra, grown, fit⟩ := ih
    refine ⟨msg :: extra, by simpa using grown, ?_⟩
    rintro m (_ | ⟨_, mem⟩)
    · exact (retryChunk_send step).2.2
    · exact fit m mem

theorem sendLoop_transfer (start num : Nat) (rulesPerMsg : ℕ+) (first : Bool)
    (sent : List DPPolicyCfg) (inv : LoopInv policy start num first) {out : List DPPolicyCfg}
    (done : sendLoop jsonLen dpSendMsg limit policy cmd start num rulesPerMsg first sent =
      .ret 0 out) :
    ∃ chunks, out = sent ++ batchMsgs policy cmd first chunks ∧
      chunks.flatten = policy.ipRules.drop start ∧ (chunks = [] ↔ num = 0 ∧ first = false) ∧
      ∀ c ∈ chunks, c = [] → num = 0 ∧ chunks = [c] := by
  fun_induction sendLoop jsonLen dpSendMsg limit policy cmd start num rulesPerMsg first sent with
  | case1 => cases done
  | case2 | case3 => simp at done
  | case5 start num _ first sent stop =>
    simp only [CtrlResult.ret.injEq, true_and] at done
    have covers := inv.covers
    refine ⟨[], by simp [done, batchMsgs], ?_, by simpa using stop, nofun⟩
    simp only [not_or, Bool.not_eq_true, not_lt, Nat.le_zero] at stop
    rw [List.flatten_nil, List.drop_eq_nil_of_le (by omega)]
  | case4 start num _ first sent going msg _ r step _ ih =>
    obtain ⟨isChunk, rfl, -⟩ := retryChunk_send step
    obtain ⟨rest, grown, covered, restEmpty, restSingle⟩ := ih (inv.next r) done
    -- the chunk of this iteration, before the chunks of the rest of the run
    refine ⟨(policy.ipRules.drop start).take (min num r) :: rest, ?_, ?_, ?_, ?_⟩
    · have last : rest.isEmpty = decide (num ≤ r) := by
        rw [Bool.eq_iff_iff, List.isEmpty_iff, restEmpty, decide_eq_true_iff, sub_chunkEnd]
        simp only [and_true]
        omega
      rw [grown, isChunk, chunkMsg, inv.chunkFlag_eq going, chunkEnd_sub, batchMsgs, last]
      simp
    · rw [List.flatten_cons, covered, chunk_append_drop]
    · simp only [reduceCtorEq, false_iff, not_and, Bool.not_eq_false]
      intro zero
      exact going.resolve_left (by omega)
    · rintro c (_ | ⟨_, mem⟩) empty
      · have none := (chunk_eq_nil inv r).mp empty
        have : rest = [] := restEmpty.mpr ⟨by rw [sub_chunkEnd]; omega, rfl⟩
        simp [none, this]
      · have := restEmpty.mpr ⟨(restSingle c mem empty).1, rfl⟩
        subst this
        cases mem

theorem sendLoop_panic (start num : Nat) (rulesPerMsg : ℕ+) (first : Bool)
    (sent : List DPPolicyCfg) {out : List DPPolicyCfg}
    (panics : sendLoop jsonLen dpSendMsg limit policy cmd start num rulesPerMsg first sent =
      .panic out) :
    first = true ∧ num = 0 ∧ limit < jsonLen (chunkMsg policy cmd start 0 rulesPerMsg) ∧
      out = sent := by
  fun_induction sendLoop jsonLen dpSendMsg limit policy cmd start num rulesPerMsg first sent with
  | case1 _ _ _ _ _ going step =>
    obtain ⟨rfl, tooBig⟩ := retryChunk_divByZero step
    cases panics
    exact ⟨by simpa using going, rfl, tooBig, rfl⟩
  | case2 | case3 | case5 => cases panics
  | case4 _ _ _ _ _ _ _ _ _ _ _ ih => exact absurd (ih panics).1 Bool.false_ne_true

end Run

/-! ### `DPCtrlConfigPolicy` -/

section Ctrl

variable (jsonLen : DPPolicyCfg → Nat) (dpSendMsg : DPPolicyCfg → Int) (limit : Nat)
  (policy : DPWorkloadIPPolicy) (cmd : Nat)

theorem loopInv_init : LoopInv policy 0 policy.ipRules.length true :=
  ⟨Nat.zero_add _, fun _ => rfl, nofun⟩

theorem chunkMsg_empty (rulesPerMsg : Nat) :
    chunkMsg policy cmd 0 0 rulesPerMsg = cfgMsg policy cmd (msgStart ||| msgEnd) [] := by
  simp [chunkMsg, chunkFlag, chunkEnd]

theorem dpCtrlConfigPolicy_fit :
    ∀ m ∈ (dpCtrlConfigPolicy jsonLen dpSendMsg limit policy cmd).sent,
      jsonLen m ≤ limit := by
  obtain ⟨extra, grown, fit⟩ :=
    sendLoop_sent_fit jsonLen dpSendMsg limit policy cmd 0 policy.ipRules.length 40 true []
  intro m mem
  rw [dpCtrlConfigPolicy, grown, List.nil_append] at mem
  exact fit m mem

theorem dpCtrlConfigPolicy_transfer {out : List DPPolicyCfg}
    (done : dpCtrlConfigPolicy jsonLen dpSendMsg limit policy cmd = .ret 0 out) :
    ∃ c : Chunking policy.ipRules, out = batchMsgs policy cmd true c.chunks := by
  obtain ⟨chunks, sent, covered, nonempty, single⟩ :=
    sendLoop_transfer jsonLen dpSendMsg limit policy cmd 0 _ 40 true [] (loopInv_init policy) done
  refine ⟨⟨chunks, by simpa using covered, ?_, fun c mem empty => (single c mem empty).2⟩,
    sent⟩
  simp [nonempty]

/-- A policy without rules whose one message is over the limit: `end - start` is 0 and
`sz/(end-start)` divides by zero. -/
theorem dpCtrlConfigPolicy_panics (noRules : policy.ipRules = [])
    (tooBig : limit < jsonLen (cfgMsg policy cmd (msgStart ||| msgEnd) [])) :
    dpCtrlConfigPolicy jsonLen dpSendMsg limit policy cmd = .panic [] := by
  have step : retryChunk jsonLen limit policy cmd 0 0 40 = .divByZero :=
    retryChunk_of_empty (by rwa [chunkMsg_empty])
  rw [dpCtrlConfigPolicy, noRules, List.length_nil]
  exact sendLoop_of_divByZero jsonLen dpSendMsg limit policy cmd 0 0 40 true [] (.inr rfl) step

def manyMacPolicy : DPWorkloadIPPolicy :=
  ⟨dpPolicyActionDeny, dpPolicyApplyEgress ||| dpPolicyApplyIngress,
    List.replicate 500 "02:42:ac:11:00:02", []⟩

theorem manyMacPolicy_over : maxMsgSize < 20 * manyMacPolicy.workloadMac.length := by
  have macs : manyMacPolicy.workloadMac.length = 500 := List.length_replicate
  rw [macs]
  decide

theorem dpCtrlConfigPolicy_panics_manyMacs :
    manyMacPolicy.ipRules = [] ∧
      maxMsgSize < 20 * (cfgMsg manyMacPolicy cfgAdd (msgStart ||| msgEnd) []).workloadMac.length ∧
      dpCtrlConfigPolicy (fun msg => 20 * msg.workloadMac.length) (fun _ => 0) maxMsgSize
        manyMacPolicy cfgAdd = .panic [] := by
  have tooBig :
      maxMsgSize < 20 * (cfgMsg manyMacPolicy cfgAdd (msgStart ||| msgEnd) []).workloadMac.length := by
    rw [cfgMsg_workloadMac]
    exact manyMacPolicy_over
  exact ⟨rfl, tooBig, dpCtrlConfigPolicy_panics _ _ _ _ _ rfl tooBig⟩

theorem dpCtrlConfigPolicy_panic_only {out : List DPPolicyCfg}
    (panics : dpCtrlConfigPolicy jsonLen dpSendMsg limit policy cmd = .panic out) :
    policy.ipRules = [] ∧ limit < jsonLen (cfgMsg policy cmd (msgStart ||| msgEnd) []) ∧
      out = [] := by
  obtain ⟨-, none, tooBig, sent⟩ :=
    sendLoop_panic jsonLen dpSendMsg limit policy cmd _ _ _ _ _ panics
  rw [List.length_eq_zero_iff] at none
  rw [chunkMsg_empty] at tooBig
  exact ⟨none, tooBig, sent⟩

end Ctrl

end MicroSegment.Agent
