import MicroSegment.Agent.DpCtrl
import MicroSegment.Share.Criteria
import MicroSegment.Lib.FoldRun

/-!
# Agent: a workload's IP rules (`agent/policy/network.go`)

`createIPRule` turns a pair of addresses and a list of port/application entries into rules of a
workload's policy. Every port string of an entry is one request. Its key prints the addresses,
the port string, the FQDN and the direction one after the other (`%v%v%s%s%d`), then the range
ends that are set. A request whose key is in `RuleMap` adds nothing, or its application to a
CHECK_APP rule; otherwise its port string is parsed (`ParsePortRangeLink`) and a new rule is
appended to `IPRules` and recorded under the key.

`RuleMap` holds pointers into `IPRules`; here it maps a key to the rule's index, so that the
merge into an existing rule changes the rule in `IPRules`. Addresses are IPv4 words, as in
`agent/dp/ctrl.go`, printed as `net.IP.String` prints them; an unset range end is `none`. A nil
`portApps` returns at once, which is what the loop does on an empty list.

`Recorded` is what a run keeps: every key points at a rule that a request of that key asked for,
and every request that parsed has its key. A request is then represented by a rule with its
fields whenever no request of another tuple shares its key (`createIPRule_represents`); and a call
made again adds no rule (`createIPRule_rerun_length`) unless it carries rule id 0.
-/

namespace MicroSegment.Agent

open MicroSegment.Dp.Policy MicroSegment.Share

/-! ### Strings and port ranges (`share/utils/utils.go`) -/

/-- `strings.Split` with a separator of one character, on the characters. -/
def splitChars (sep : Char) : List Char → List (List Char)
  | [] => [[]]
  | c :: cs =>
    if c = sep then [] :: splitChars sep cs
    else match splitChars sep cs with
      | w :: ws => (c :: w) :: ws
      | [] => [[c]]

def stringsSplit (s : String) (sep : Char) : List String :=
  (splitChars sep s.toList).map String.ofList

def decimalValue (digits : List Char) : Nat :=
  digits.foldl (fun n d => 10 * n + (d.toNat - '0'.toNat)) 0

/-- `strconv.Atoi`: an optional sign, then at least one decimal digit, within a 64-bit `int`. -/
def strconvAtoi (s : String) : Option Int :=
  let (neg, digits) : Bool × List Char := match s.toList with
    | '+' :: ds => (false, ds)
    | '-' :: ds => (true, ds)
    | ds => (false, ds)
  if digits = [] ∨ ¬ digits.all Char.isDigit then none
  else
    let v : Int := if neg then -(decimalValue digits : Int) else decimalValue digits
    if -2 ^ 63 ≤ v ∧ v < 2 ^ 63 then some v else none

def uint16Of (v : Int) : Nat := (v % 65536).toNat

def uint8Of (v : Int) : Nat := (v % 256).toNat

def cliAny : String := "any"

/-- `getPortRange`: `any`, a port, or a range `low-high` given either way round. A failed
`strconv.Atoi` is `none`. -/
def getPortRange (port : String) : Option (Nat × Nat) :=
  if port = cliAny then some (0, 0xffff)
  else
    let portRange := stringsSplit port '-'
    match strconvAtoi (portRange.headD "") with
    | none => none
    | some low =>
      let low := uint16Of low
      if portRange.length = 2 then
        match strconvAtoi (portRange.getD 1 "") with
        | none => none
        | some high =>
          let high := uint16Of high
          if high > low then some (low, high) else some (high, low)
      else some (low, low)

/-- `ParsePortRangeLink`: the protocol and the port range of a port string, `none` where the
source returns an error. -/
def parsePortRangeLink (name : String) : Option (Nat × Nat × Nat) :=
  let rest := String.ofList (name.toList.drop 4)
  if stringsHasPrefix name "tcp/" then (getPortRange rest).map fun (low, high) => (ipprotoTcp, low, high)
  else if stringsHasPrefix name "udp/" then
    (getPortRange rest).map fun (low, high) => (ipprotoUdp, low, high)
  else if name = "icmp" then some (ipprotoIcmp, 0, 0xffff)
  else if stringsHasPrefix name "ip:" then
    (strconvAtoi (String.ofList (name.toList.drop 3))).map fun proto => (uint8Of proto, 0, 0xffff)
  else if name = cliAny then some (0, 0, 0xffff)
  else (getPortRange name).map fun (low, high) => (0, low, high)

/-- `net.IP.String` of an IPv4 address: its four bytes in decimal, separated by dots. -/
def ipString (ip : Nat) : String :=
  toString (ip / 2 ^ 24 % 256) ++ "." ++ toString (ip / 2 ^ 16 % 256) ++ "." ++
    toString (ip / 2 ^ 8 % 256) ++ "." ++ toString (ip % 256)

/-- The `RuleMap` key of a request: `%v%v%s%s%d` of the two addresses, the port string, the FQDN
and 1 for ingress or 0, then `%v` of each range end that is set. -/
def ipRuleKey (fromIP toIP : Nat) (ap fqdn : String) (ingress : Bool) (fromR toR : Option Nat) :
    String :=
  let key := ipString fromIP ++ ipString toIP ++ ap ++ fqdn ++ (if ingress then "1" else "0")
  let key := match fromR with
    | some r => key ++ ipString r
    | none => key
  match toR with
  | some r => key ++ ipString r
  | none => key

structure CLUSPortApp where
  ports : String
  application : Nat
  checkApp : Bool
  deriving DecidableEq, Repr

structure RuleContext where
  ingress : Bool
  id : Nat
  fqdn : String
  vhost : Bool
  deriving DecidableEq, Repr

/-- The fields of `WorkloadIPPolicyInfo` that `createIPRule` reads and writes; `ruleMap` gives
the index in `policy.ipRules` of the rule a key points at. -/
structure WorkloadIPPolicyInfo where
  ruleMap : String → Option Nat
  policy : DPWorkloadIPPolicy
  hostMode : Bool

/-- The policy info of a workload before its rules are built: `RuleMap` empty, `IPRules` nil. -/
def WorkloadIPPolicyInfo.start (policy : DPWorkloadIPPolicy) (hostMode : Bool) :
    WorkloadIPPolicyInfo :=
  ⟨fun _ => none, { policy with ipRules := [] }, hostMode⟩

/-- `pInfo.RuleMap[key]`: the index of the rule and the rule. -/
def WorkloadIPPolicyInfo.existRule (pInfo : WorkloadIPPolicyInfo) (key : String) :
    Option (Nat × DPPolicyIPRule) :=
  match pInfo.ruleMap key with
  | none => none
  | some i => pInfo.policy.ipRules[i]?.map (i, ·)

/-- The rule at index `i` replaced, as a write through the pointer in `RuleMap`. -/
def WorkloadIPPolicyInfo.setRule (pInfo : WorkloadIPPolicyInfo) (i : Nat) (rule : DPPolicyIPRule) :
    WorkloadIPPolicyInfo :=
  { pInfo with policy := { pInfo.policy with ipRules := pInfo.policy.ipRules.set i rule } }

def WorkloadIPPolicyInfo.addRule (pInfo : WorkloadIPPolicyInfo) (key : String)
    (rule : DPPolicyIPRule) : WorkloadIPPolicyInfo :=
  { pInfo with
    ruleMap := fun k => if k = key then some pInfo.policy.ipRules.length else pInfo.ruleMap k
    policy := { pInfo.policy with ipRules := pInfo.policy.ipRules ++ [rule] } }

/-- `getDerivedAppRule`: its body is commented out, so it derives nothing. -/
def getDerivedAppRule (_port : String) (_appRule : DPPolicyApp) : Option DPPolicyApp := none

def appendAppRule (port : String) (apps : List DPPolicyApp) (appRule : DPPolicyApp) :
    List DPPolicyApp :=
  apps ++ [appRule] ++ (getDerivedAppRule port appRule).toList

def mergeAppRule (ap : String) (portApp : CLUSPortApp) (action id : Nat)
    (existRule : DPPolicyIPRule) : DPPolicyIPRule :=
  if existRule.apps.any (·.app = portApp.application) then existRule
  else { existRule with apps := appendAppRule ap existRule.apps ⟨portApp.application, action, id⟩ }

def newIPRule (fromIP toIP : Nat) (fromR toR : Option Nat) (ap : String) (portApp : CLUSPortApp)
    (action : Nat) (hostMode : Bool) (ctx : RuleContext) (proto p pr : Nat) : DPPolicyIPRule :=
  let rule : DPPolicyIPRule :=
    { id := ctx.id, srcIP := fromIP, dstIP := toIP, srcIPR := fromR, dstIPR := toR, port := p,
      portR := pr, ipProto := proto, action := action, ingress := ctx.ingress, fqdn := ctx.fqdn,
      vhost := ctx.vhost, apps := [] }
  -- a host mode container checks ports only, not applications
  if !hostMode && portApp.checkApp then
    { rule with
      apps := appendAppRule ap [] ⟨portApp.application, action, ctx.id⟩
      action := dpPolicyActionCheckApp }
  else rule

def addIPRule (key : String) (fromIP toIP : Nat) (fromR toR : Option Nat) (ap : String)
    (portApp : CLUSPortApp) (action : Nat) (ctx : RuleContext) (pInfo : WorkloadIPPolicyInfo) :
    WorkloadIPPolicyInfo :=
  match parsePortRangeLink ap with
  | none => pInfo
  | some (proto, p, pr) =>
    pInfo.addRule key (newIPRule fromIP toIP fromR toR ap portApp action pInfo.hostMode ctx proto p pr)

def createIPRulePort (fromIP toIP : Nat) (fromR toR : Option Nat) (portApp : CLUSPortApp)
    (action : Nat) (ctx : RuleContext) (pInfo : WorkloadIPPolicyInfo) (ap : String) :
    WorkloadIPPolicyInfo :=
  let key := ipRuleKey fromIP toIP ap ctx.fqdn ctx.ingress fromR toR
  match pInfo.existRule key with
  | some (i, existRule) =>
    if existRule.action ≠ dpPolicyActionCheckApp then pInfo
    else if ctx.id ≠ 0 then pInfo.setRule i (mergeAppRule ap portApp action ctx.id existRule)
    -- a CHECK_APP rule of rule id 0 falls through to a new rule
    else addIPRule key fromIP toIP fromR toR ap portApp action ctx pInfo
  | none => addIPRule key fromIP toIP fromR toR ap portApp action ctx pInfo

def createIPRule (fromIP toIP : Nat) (fromR toR : Option Nat) (portApps : List CLUSPortApp)
    (action : Nat) (pInfo : WorkloadIPPolicyInfo) (ctx : RuleContext) : WorkloadIPPolicyInfo :=
  portApps.foldl (fun pInfo portApp =>
    (stringsSplit portApp.ports ',').foldl
      (createIPRulePort fromIP toIP fromR toR portApp action ctx) pInfo) pInfo

/-! ### Requests -/

/-- The arguments of one `createIPRule` call. -/
structure IPRuleCall where
  fromIP : Nat
  toIP : Nat
  fromR : Option Nat
  toR : Option Nat
  portApps : List CLUSPortApp
  action : Nat
  ctx : RuleContext
  deriving DecidableEq, Repr

def IPRuleCall.run (pInfo : WorkloadIPPolicyInfo) (c : IPRuleCall) : WorkloadIPPolicyInfo :=
  createIPRule c.fromIP c.toIP c.fromR c.toR c.portApps c.action pInfo c.ctx

/-- One request: a port string of an entry, with the addresses, FQDN and direction of its call. -/
structure PortRequest where
  fromIP : Nat
  toIP : Nat
  fromR : Option Nat
  toR : Option Nat
  ap : String
  fqdn : String
  ingress : Bool
  deriving DecidableEq, Repr

def IPRuleCall.request (c : IPRuleCall) (ap : String) : PortRequest :=
  ⟨c.fromIP, c.toIP, c.fromR, c.toR, ap, c.ctx.fqdn, c.ctx.ingress⟩

def IPRuleCall.requests (c : IPRuleCall) : List PortRequest :=
  c.portApps.flatMap fun portApp => (stringsSplit portApp.ports ',').map c.request

def PortRequest.key (r : PortRequest) : String :=
  ipRuleKey r.fromIP r.toIP r.ap r.fqdn r.ingress r.fromR r.toR

/-- The fields by which a rule answers a request. -/
structure RuleFields where
  srcIP : Nat
  dstIP : Nat
  srcIPR : Option Nat
  dstIPR : Option Nat
  ipProto : Nat
  port : Nat
  portR : Nat
  fqdn : String
  ingress : Bool
  deriving DecidableEq, Repr

def DPPolicyIPRule.fields (rule : DPPolicyIPRule) : RuleFields :=
  ⟨rule.srcIP, rule.dstIP, rule.srcIPR, rule.dstIPR, rule.ipProto, rule.port, rule.portR, rule.fqdn,
    rule.ingress⟩

def PortRequest.fields (r : PortRequest) : Option RuleFields :=
  (parsePortRangeLink r.ap).map fun (proto, p, pr) =>
    ⟨r.fromIP, r.toIP, r.fromR, r.toR, proto, p, pr, r.fqdn, r.ingress⟩

@[simp] theorem fields_mergeAppRule (ap : String) (portApp : CLUSPortApp) (action id : Nat)
    (rule : DPPolicyIPRule) : (mergeAppRule ap portApp action id rule).fields = rule.fields := by
  unfold mergeAppRule
  split <;> rfl

@[simp] theorem fields_newIPRule (fromIP toIP : Nat) (fromR toR : Option Nat) (ap : String)
    (portApp : CLUSPortApp) (action : Nat) (hostMode : Bool) (ctx : RuleContext) (proto p pr : Nat) :
    (newIPRule fromIP toIP fromR toR ap portApp action hostMode ctx proto p pr).fields =
      ⟨fromIP, toIP, fromR, toR, proto, p, pr, ctx.fqdn, ctx.ingress⟩ := by
  unfold newIPRule
  split <;> rfl

theorem request_fields (c : IPRuleCall) (ap : String) :
    (c.request ap).fields = (parsePortRangeLink ap).map fun (proto, p, pr) =>
      ⟨c.fromIP, c.toIP, c.fromR, c.toR, proto, p, pr, c.ctx.fqdn, c.ctx.ingress⟩ := rfl

namespace WorkloadIPPolicyInfo

variable (pInfo : WorkloadIPPolicyInfo)

theorem existRule_eq_some {key : String} {i : Nat} {rule : DPPolicyIPRule} :
    pInfo.existRule key = some (i, rule) ↔
      pInfo.ruleMap key = some i ∧ pInfo.policy.ipRules[i]? = some rule := by
  unfold existRule
  split
  · next none => simp [none]
  · next j some =>
    simp only [some, Option.map_eq_some_iff, Prod.mk.injEq, Option.some.injEq]
    constructor
    · rintro ⟨rule', found, rfl, rfl⟩
      exact ⟨rfl, found⟩
    · rintro ⟨rfl, found⟩
      exact ⟨rule, found, rfl, rfl⟩

theorem existRule_isSome_iff {key : String} :
    (pInfo.existRule key).isSome ↔ ∃ i, pInfo.ruleMap key = some i ∧ i < pInfo.policy.ipRules.length := by
  unfold existRule
  split
  · next none => simp [none]
  · next j some => simp [some]

@[simp] theorem setRule_ruleMap (i : Nat) (rule : DPPolicyIPRule) :
    (pInfo.setRule i rule).ruleMap = pInfo.ruleMap := rfl

@[simp] theorem setRule_ipRules (i : Nat) (rule : DPPolicyIPRule) :
    (pInfo.setRule i rule).policy.ipRules = pInfo.policy.ipRules.set i rule := rfl

@[simp] theorem setRule_hostMode (i : Nat) (rule : DPPolicyIPRule) :
    (pInfo.setRule i rule).hostMode = pInfo.hostMode := rfl

@[simp] theorem addRule_ruleMap (key : String) (rule : DPPolicyIPRule) (k : String) :
    (pInfo.addRule key rule).ruleMap k =
      if k = key then some pInfo.policy.ipRules.length else pInfo.ruleMap k := rfl

@[simp] theorem addRule_ipRules (key : String) (rule : DPPolicyIPRule) :
    (pInfo.addRule key rule).policy.ipRules = pInfo.policy.ipRules ++ [rule] := rfl

@[simp] theorem addRule_hostMode (key : String) (rule : DPPolicyIPRule) :
    (pInfo.addRule key rule).hostMode = pInfo.hostMode := rfl

end WorkloadIPPolicyInfo

section Port

variable (c : IPRuleCall) (portApp : CLUSPortApp) (pInfo : WorkloadIPPolicyInfo) (ap : String)

theorem createIPRulePort_cases :
    let key := (c.request ap).key
    let pInfo' := createIPRulePort c.fromIP c.toIP c.fromR c.toR portApp c.action c.ctx pInfo ap
    (pInfo' = pInfo ∧ ((pInfo.existRule key).isSome ∨ parsePortRangeLink ap = none)) ∨
    (∃ i rule, pInfo.existRule key = some (i, rule) ∧ c.ctx.id ≠ 0 ∧
      pInfo' = pInfo.setRule i (mergeAppRule ap portApp c.action c.ctx.id rule)) ∨
    (∃ proto p pr, parsePortRangeLink ap = some (proto, p, pr) ∧
      (pInfo.existRule key = none ∨ c.ctx.id = 0) ∧
      pInfo' = pInfo.addRule key
        (newIPRule c.fromIP c.toIP c.fromR c.toR ap portApp c.action pInfo.hostMode c.ctx proto p pr)) := by
  intro key pInfo'
  have add : addIPRule key c.fromIP c.toIP c.fromR c.toR ap portApp c.action c.ctx pInfo = pInfo ∧
        parsePortRangeLink ap = none ∨
      ∃ proto p pr, parsePortRangeLink ap = some (proto, p, pr) ∧
        addIPRule key c.fromIP c.toIP c.fromR c.toR ap portApp c.action c.ctx pInfo = pInfo.addRule key
          (newIPRule c.fromIP c.toIP c.fromR c.toR ap portApp c.action pInfo.hostMode c.ctx proto p pr) := by
    unfold addIPRule
    split
    · next parsed => exact .inl ⟨rfl, parsed⟩
    · next proto p pr parsed => exact .inr ⟨proto, p, pr, parsed, rfl⟩
  simp only [pInfo', createIPRulePort]
  split
  · next i rule exist =>
    have taken : (pInfo.existRule key).isSome := by
      show (pInfo.existRule (ipRuleKey c.fromIP c.toIP ap c.ctx.fqdn c.ctx.ingress c.fromR c.toR)).isSome
      simp [exist]
    split
    · exact .inl ⟨rfl, .inl taken⟩
    split
    · next zero => exact .inr (.inl ⟨i, rule, exist, zero, rfl⟩)
    · next zero =>
      rcases add with ⟨same, parsed⟩ | ⟨proto, p, pr, parsed, added⟩
      · exact .inl ⟨same, .inr parsed⟩
      · exact .inr (.inr ⟨proto, p, pr, parsed, .inr (not_not.mp zero), added⟩)
  · next free =>
    rcases add with ⟨same, parsed⟩ | ⟨proto, p, pr, parsed, added⟩
    · exact .inl ⟨same, .inr parsed⟩
    · exact .inr (.inr ⟨proto, p, pr, parsed, .inl free, added⟩)

theorem createIPRulePort_keeps (id : c.ctx.id ≠ 0)
    (settled : (pInfo.existRule (c.request ap).key).isSome ∨ parsePortRangeLink ap = none) :
    let pInfo' := createIPRulePort c.fromIP c.toIP c.fromR c.toR portApp c.action c.ctx pInfo ap
    pInfo'.ruleMap = pInfo.ruleMap ∧ pInfo'.policy.ipRules.length = pInfo.policy.ipRules.length := by
  rcases createIPRulePort_cases c portApp pInfo ap with
    ⟨same, -⟩ | ⟨i, rule, -, -, merged⟩ | ⟨proto, p, pr, parsed, free, -⟩
  · simp [same]
  · simp [merged]
  -- a new rule needs a free key, or rule id 0
  · rcases free with free | zero
    · rcases settled with taken | unparsed
      · rw [free] at taken
        simp at taken
      · simp [unparsed] at parsed
    · exact (id zero).elim

end Port

/-! ### Runs -/

/-- What a run keeps of the requests `reqs` it has taken: every key of `RuleMap` points at a rule
of `IPRules` whose fields a request of that key asked for, and every request whose port string
parsed has its key in `RuleMap`. -/
structure Recorded (reqs : List PortRequest) (pInfo : WorkloadIPPolicyInfo) : Prop where
  points : ∀ key i, pInfo.ruleMap key = some i → ∃ rule, pInfo.policy.ipRules[i]? = some rule ∧
    ∃ r ∈ reqs, r.key = key ∧ r.fields = some rule.fields
  present : ∀ r ∈ reqs, r.fields.isSome → (pInfo.ruleMap r.key).isSome

theorem recorded_start (policy : DPWorkloadIPPolicy) (hostMode : Bool) :
    Recorded [] (.start policy hostMode) :=
  ⟨by simp [WorkloadIPPolicyInfo.start], by simp⟩

variable {reqs : List PortRequest} {pInfo : WorkloadIPPolicyInfo}

theorem Recorded.existRule_isSome (recorded : Recorded reqs pInfo) {r : PortRequest}
    (made : r ∈ reqs) (parsed : r.fields.isSome) : (pInfo.existRule r.key).isSome := by
  obtain ⟨i, mapped⟩ := Option.isSome_iff_exists.mp (recorded.present r made parsed)
  obtain ⟨rule, found, -⟩ := recorded.points r.key i mapped
  exact (pInfo.existRule_isSome_iff).mpr ⟨i, mapped, (List.getElem?_eq_some_iff.mp found).1⟩

theorem Recorded.port (recorded : Recorded reqs pInfo) (c : IPRuleCall) (portApp : CLUSPortApp)
    (ap : String) :
    Recorded (reqs ++ [c.request ap])
      (createIPRulePort c.fromIP c.toIP c.fromR c.toR portApp c.action c.ctx pInfo ap) := by
  rcases createIPRulePort_cases c portApp pInfo ap with
    ⟨same, why⟩ | ⟨i, rule, exist, -, merged⟩ | ⟨proto, p, pr, parsed, -, added⟩
  · rw [same]
    refine ⟨fun key j mapped => ?_, fun r made asked => ?_⟩
    · obtain ⟨rule, found, r, made, rest⟩ := recorded.points key j mapped
      exact ⟨rule, found, r, List.mem_append_left _ made, rest⟩
    simp only [List.mem_append, List.mem_singleton] at made
    rcases made with made | rfl
    · exact recorded.present r made asked
    rcases why with taken | unparsed
    · obtain ⟨j, mapped, -⟩ := (pInfo.existRule_isSome_iff).mp taken
      simp [mapped]
    · simp [request_fields, unparsed] at asked
  · rw [merged]
    obtain ⟨mapped, found⟩ := (pInfo.existRule_eq_some).mp exist
    refine ⟨fun key j mapped' => ?_, fun r made asked => ?_⟩
    · obtain ⟨rule', found', r, made, key, asked⟩ := recorded.points key j mapped'
      -- only the rule at `i` changes, and the merge keeps its fields
      by_cases at_i : i = j
      · subst at_i
        rw [found] at found'
        cases found'
        have lt := (List.getElem?_eq_some_iff.mp found).1
        refine ⟨mergeAppRule ap portApp c.action c.ctx.id rule, by simp [lt], r,
          List.mem_append_left _ made, key, ?_⟩
        simpa using asked
      · refine ⟨rule', ?_, r, List.mem_append_left _ made, key, asked⟩
        simpa [List.getElem?_set, at_i] using found'
    simp only [List.mem_append, List.mem_singleton] at made
    rcases made with made | rfl
    · simpa using recorded.present r made asked
    · simp [mapped]
  · rw [added]
    refine ⟨fun key j mapped => ?_, fun r made asked => ?_⟩
    · simp only [WorkloadIPPolicyInfo.addRule_ruleMap] at mapped
      split at mapped
      -- the new key points at the new rule, the others where they pointed
      · next new =>
        cases mapped
        refine ⟨newIPRule c.fromIP c.toIP c.fromR c.toR ap portApp c.action pInfo.hostMode c.ctx proto p pr,
          by simp, c.request ap, by simp, new.symm, ?_⟩
        simp [request_fields, parsed]
      · obtain ⟨rule, found, r, made, rest⟩ := recorded.points key j mapped
        have lt := (List.getElem?_eq_some_iff.mp found).1
        exact ⟨rule, by simpa [List.getElem?_append_left lt] using found, r,
          List.mem_append_left _ made, rest⟩
    simp only [WorkloadIPPolicyInfo.addRule_ruleMap]
    split
    · simp
    simp only [List.mem_append, List.mem_singleton] at made
    rcases made with made | rfl
    · exact recorded.present r made asked
    · simp_all

theorem Recorded.run (recorded : Recorded reqs pInfo) (c : IPRuleCall) :
    Recorded (reqs ++ c.requests) (c.run pInfo) := by
  unfold IPRuleCall.run createIPRule IPRuleCall.requests
  refine FoldRun.foldl_flatMap_induction _ _ Recorded c.portApps ?_ recorded
  intro portApp _ reqs s inner
  exact FoldRun.foldl_map_induction _ _ Recorded _ (fun ap _ reqs s h => h.port c portApp ap) inner

theorem recorded_runs (policy : DPWorkloadIPPolicy) (hostMode : Bool) (calls : List IPRuleCall) :
    Recorded (calls.flatMap IPRuleCall.requests) (calls.foldl IPRuleCall.run (.start policy hostMode)) := by
  have run := FoldRun.foldl_flatMap_induction IPRuleCall.run IPRuleCall.requests Recorded calls
    (fun c _ reqs s recorded => recorded.run c) (recorded_start policy hostMode)
  simpa using run

/-- A request whose port string parsed is answered by the rule its key points at, with the
fields it asked for, as long as every request of the run with the same key asked for the same
fields. -/
theorem createIPRule_represents (policy : DPWorkloadIPPolicy) (hostMode : Bool)
    (calls : List IPRuleCall) {r : PortRequest} (made : r ∈ calls.flatMap IPRuleCall.requests)
    {f : RuleFields} (parsed : r.fields = some f)
    (unique : ∀ r' ∈ calls.flatMap IPRuleCall.requests, r'.key = r.key → r'.fields = r.fields) :
    ∃ i rule, (calls.foldl IPRuleCall.run (.start policy hostMode)).existRule r.key = some (i, rule) ∧
      rule.fields = f := by
  have recorded := recorded_runs policy hostMode calls
  obtain ⟨i, mapped⟩ := Option.isSome_iff_exists.mp (recorded.present r made (by simp [parsed]))
  obtain ⟨rule, found, r', made', key, asked⟩ := recorded.points r.key i mapped
  refine ⟨i, rule, (WorkloadIPPolicyInfo.existRule_eq_some _).mpr ⟨mapped, found⟩, ?_⟩
  rw [unique r' made' key, parsed] at asked
  exact (Option.some.inj asked).symm

def webCall (fromIP toIP : Nat) : IPRuleCall :=
  ⟨fromIP, toIP, none, none, [⟨"tcp/80", 0, false⟩], dpPolicyActionAllow, ⟨false, 10, "", false⟩⟩

def openPolicy : DPWorkloadIPPolicy := ⟨dpPolicyActionOpen, dpPolicyApplyEgress, [], []⟩

example : ([webCall 0x0a000001 0xac100005, webCall 0x0a000002 0xac100005].foldl IPRuleCall.run
    (.start openPolicy false)).policy.ipRules.map DPPolicyIPRule.fields =
      [⟨0x0a000001, 0xac100005, none, none, ipprotoTcp, 80, 80, "", false⟩,
        ⟨0x0a000002, 0xac100005, none, none, ipprotoTcp, 80, 80, "", false⟩] := by
  decide

/-- 1.1.1.1 to 11.1.1.1 and 1.1.1.11 to 1.1.1.1 are different requests with one key,
`1.1.1.111.1.1.1tcp/800`: after both calls no rule goes from 1.1.1.11, though its port string
parses. -/
theorem createIPRule_key_collision :
    (webCall 0x01010101 0x0b010101).request "tcp/80" ≠ (webCall 0x0101010b 0x01010101).request "tcp/80" ∧
    ((webCall 0x01010101 0x0b010101).request "tcp/80").key =
      ((webCall 0x0101010b 0x01010101).request "tcp/80").key ∧
    ((webCall 0x0101010b 0x01010101).request "tcp/80").fields =
      some ⟨0x0101010b, 0x01010101, none, none, ipprotoTcp, 80, 80, "", false⟩ ∧
    ∀ rule ∈ ([webCall 0x01010101 0x0b010101, webCall 0x0101010b 0x01010101].foldl IPRuleCall.run
        (.start openPolicy false)).policy.ipRules,
      rule.fields ≠ ⟨0x0101010b, 0x01010101, none, none, ipprotoTcp, 80, 80, "", false⟩ := by
  decide

theorem IPRuleCall.run_keeps (c : IPRuleCall) (pInfo : WorkloadIPPolicyInfo) (id : c.ctx.id ≠ 0)
    (settled : ∀ r ∈ c.requests, (pInfo.existRule r.key).isSome ∨ r.fields = none) :
    (c.run pInfo).ruleMap = pInfo.ruleMap ∧
      (c.run pInfo).policy.ipRules.length = pInfo.policy.ipRules.length := by
  have port : ∀ portApp ∈ c.portApps, ∀ ap ∈ stringsSplit portApp.ports ',', ∀ s : WorkloadIPPolicyInfo,
      s.ruleMap = pInfo.ruleMap ∧ s.policy.ipRules.length = pInfo.policy.ipRules.length →
      (createIPRulePort c.fromIP c.toIP c.fromR c.toR portApp c.action c.ctx s ap).ruleMap =
          pInfo.ruleMap ∧
        (createIPRulePort c.fromIP c.toIP c.fromR c.toR portApp c.action c.ctx s ap).policy.ipRules.length =
          pInfo.policy.ipRules.length := by
    intro portApp entry ap split s ⟨sameMap, sameLength⟩
    have made : c.request ap ∈ c.requests :=
      List.mem_flatMap.mpr ⟨portApp, entry, List.mem_map_of_mem split⟩
    -- whether a key is taken depends only on `RuleMap` and the number of rules
    have settled' : (s.existRule (c.request ap).key).isSome ∨ parsePortRangeLink ap = none := by
      rcases settled _ made with taken | unparsed
      · left
        rw [WorkloadIPPolicyInfo.existRule_isSome_iff, sameMap, sameLength]
        exact (pInfo.existRule_isSome_iff).mp taken
      · right
        simpa [request_fields] using unparsed
    obtain ⟨keepsMap, keepsLength⟩ := createIPRulePort_keeps c portApp s ap id settled'
    exact ⟨keepsMap.trans sameMap, keepsLength.trans sameLength⟩
  unfold IPRuleCall.run createIPRule
  refine List.foldlRecOn (motive := fun s : WorkloadIPPolicyInfo => s.ruleMap = pInfo.ruleMap ∧
    s.policy.ipRules.length = pInfo.policy.ipRules.length) c.portApps _ ⟨rfl, rfl⟩ ?_
  intro s same portApp entry
  exact List.foldlRecOn (motive := fun s : WorkloadIPPolicyInfo => s.ruleMap = pInfo.ruleMap ∧
    s.policy.ipRules.length = pInfo.policy.ipRules.length) _ _ same
    fun s' same' ap split => port portApp entry ap split s' same'

/-- A call made again adds no rule, when its rule id is not 0. -/
theorem createIPRule_rerun_length (policy : DPWorkloadIPPolicy) (hostMode : Bool)
    (calls : List IPRuleCall) {c : IPRuleCall} (made : c ∈ calls) (id : c.ctx.id ≠ 0) :
    (c.run (calls.foldl IPRuleCall.run (.start policy hostMode))).policy.ipRules.length =
      (calls.foldl IPRuleCall.run (.start policy hostMode)).policy.ipRules.length := by
  have recorded := recorded_runs policy hostMode calls
  refine (IPRuleCall.run_keeps c _ id fun r asked => ?_).2
  have made' : r ∈ calls.flatMap IPRuleCall.requests := List.mem_flatMap.mpr ⟨c, made, asked⟩
  cases parsed : r.fields with
  | none => exact .inr rfl
  | some f => exact .inl (recorded.existRule_isSome made' (by simp [parsed]))

end MicroSegment.Agent
