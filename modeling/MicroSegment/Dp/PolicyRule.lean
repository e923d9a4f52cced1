import Mathlib
import MicroSegment.Dp.PolicyLookup

/-!
# Dataplane policy table: adding rules

`dpi_range_rule_add`, `dpi_rule_add_one`, `dpi_add_app_rule` and `dpi_rule_add`. A rule whose
bounds are one point goes to the exact map only after a full `dpi_policy_lookup_by_key` of its key
(with a `NULL` packet) finds no rule; a range rule is appended to its range list unless an item
with the same bounds is there. `dpi_add_app_rule` writes the application into the caller's keys,
and `dpi_rule_add` restores them only when the rule has application rules; the model returns the
keys so that a caller sees what the C caller sees.
-/

namespace MicroSegment.Dp.Policy

/-- `get_range_key`; `none` where the C function returns -1. -/
def getRangeKey (keyL keyH : RuleKey) (dir : RuleDir) : Option RangeKey :=
  if keyL.proto ≠ keyH.proto then none
  else
    match dir with
    | .ingress => some ⟨keyL.dip, keyL.proto, dpRangeRuleIngress⟩
    | .egress => some ⟨keyL.sip, keyL.proto, dpRangeRuleEgress⟩
    | .none => some ⟨0, keyL.proto, 0⟩

/-- What an add function returns: its C return value, the handle after it, and `exist_desc`. -/
structure AddResult where
  ret : Int
  hdl : Hdl
  existDesc : Desc

def Hdl.setRange (hdl : Hdl) (k : RangeKey) (items : List RangeItem) : Hdl :=
  { hdl with rangePolicyMap := Function.update hdl.rangePolicyMap k items }

/-- Append one entry to the exact map (`rcu_map_add`). -/
def Hdl.addExact (hdl : Hdl) (k : RuleKey) (d : Desc) : Hdl :=
  { hdl with policyMap := hdl.policyMap ++ [(k, d)] }

/-- `dpi_range_rule_add`: an item with the same bounds is reported in `exist_desc`, any other
item is appended to the list. -/
def dpiRangeRuleAdd (hdl : Hdl) (keyL keyH : RuleKey) (dir : RuleDir) (desc existDesc : Desc) :
    AddResult :=
  match getRangeKey keyL keyH dir with
  | none => ⟨-1, hdl, existDesc⟩
  | some key =>
    let items := hdl.rangePolicyMap key
    match items.find? (fun p => decide (p.keyL = keyL ∧ p.keyH = keyH)) with
    | some p => ⟨0, hdl, p.desc⟩
    | none => ⟨1, hdl.setRange key (items ++ [⟨desc, keyL, keyH⟩]), existDesc⟩

def dpiRuleAddOne (env : PolicyEnv) (hdl : Hdl) (keyL : RuleKey) (keyH : Option RuleKey)
    (dir : RuleDir) (desc existDesc : Desc) : AddResult :=
  match keyH with
  | none =>
    -- a single point is added only when the full lookup (with a NULL packet) finds no rule
    let found := dpiPolicyLookupByKey env (some hdl) keyL.sip keyL.dip keyL.dport keyL.proto
      keyL.app (decide (dir = .ingress)) existDesc false
    if found.id ≠ 0 then ⟨0, hdl, found⟩
    else ⟨1, hdl.addExact keyL desc, found⟩
  | some keyH => dpiRangeRuleAdd hdl keyL keyH dir desc existDesc

/-- What `dpi_add_app_rule` leaves behind: the add result and the caller's keys after it. -/
structure AppAddResult where
  result : AddResult
  keyL : RuleKey
  keyH : Option RuleKey

/-- The descriptor `dpi_add_app_rule` installs for one application rule. -/
def appDesc (appRule : AppRule) (desc : Desc) : Desc :=
  ⟨appRule.ruleId, appRule.action, desc.flags, 0, desc.order⟩

/-- `dpi_add_app_rule`. Application 0 means any application: the upper key gets application
`0xffffffff`, and a single point gets a copy of its key as the upper key, so that the rule goes to
the range list. -/
def dpiAddAppRule (env : PolicyEnv) (hdl : Hdl) (keyL : RuleKey) (keyH : Option RuleKey)
    (appRule : AppRule) (dir : RuleDir) (desc existDesc : Desc) : AppAddResult :=
  let keyL := { keyL with app := appRule.app }
  let keyH := keyH.map fun k => { k with app := if appRule.app ≠ 0 then appRule.app else 0xffffffff }
  let upper :=
    match keyH with
    | some k => some k
    | none => if appRule.app ≠ 0 then none else some { keyL with app := 0xffffffff }
  ⟨dpiRuleAddOne env hdl keyL upper dir (appDesc appRule desc) existDesc, keyL, keyH⟩

/-- The rule for any application that `dpi_rule_add` installs for a rule that is not a
`CHECK_APP` rule. -/
def appAnyRule (desc : Desc) : AppRule := ⟨desc.id, 0, desc.action⟩

/-- The loop of `dpi_rule_add` over the application rules, counting the rules it adds. -/
def addAppRules (env : PolicyEnv) (dir : RuleDir) (desc : Desc) :
    Hdl → RuleKey → Option RuleKey → Desc → Int → List AppRule → Int × Hdl × RuleKey × Option RuleKey
  | hdl, keyL, keyH, _, ret, [] => (ret, hdl, keyL, keyH)
  | hdl, keyL, keyH, existDesc, ret, appRule :: rest =>
    let r := dpiAddAppRule env hdl keyL keyH appRule dir desc existDesc
    addAppRules env dir desc r.result.hdl r.keyL r.keyH r.result.existDesc
      (if r.result.ret = 1 then ret + 1 else ret) rest

/-- The rule for any application that `dpi_rule_add` adds after its first add: for a new rule
that is not a `CHECK_APP` rule, or for one that meets an existing `CHECK_APP` rule. -/
def anyAppPass (env : PolicyEnv) (keyL : RuleKey) (keyH : Option RuleKey) (dir : RuleDir)
    (desc : Desc) (first : AddResult) : AppAddResult :=
  if (first.ret = 0 ∧ 0 < first.existDesc.id ∧ desc.action ≠ dpPolicyActionCheckApp) ∨
      (0 < first.ret ∧ 0 < desc.id ∧ desc.action ≠ dpPolicyActionCheckApp) then
    dpiAddAppRule env first.hdl keyL keyH (appAnyRule desc) dir desc first.existDesc
  else ⟨first, keyL, keyH⟩

/-- `dpi_rule_add`: the return value, the handle, and the caller's keys after the call. -/
def dpiRuleAdd (env : PolicyEnv) (hdl : Hdl) (keyL : RuleKey) (keyH : Option RuleKey)
    (appRules : List AppRule) (dir : RuleDir) (desc : Desc) :
    Int × Hdl × RuleKey × Option RuleKey :=
  let first := dpiRuleAddOne env hdl keyL keyH dir desc Desc.zero
  if first.ret < 0 then (first.ret, first.hdl, keyL, keyH)
  else
    -- an existing rule that is not a CHECK_APP rule keeps the new one out, apps included
    if first.ret = 0 ∧ 0 < first.existDesc.id ∧ first.existDesc.action ≠ dpPolicyActionCheckApp then
      (first.ret, first.hdl, keyL, keyH)
    else
      let any := anyAppPass env keyL keyH dir desc first
      if appRules = [] then (any.result.ret, any.result.hdl, any.keyL, any.keyH)
      else
        let loop := addAppRules env dir desc any.result.hdl any.keyL any.keyH any.result.existDesc
          any.result.ret appRules
        -- the caller may reuse the keys for the next protocol
        (loop.1, loop.2.1, { loop.2.2.1 with app := 0 }, loop.2.2.2.map fun k => { k with app := 0 })

theorem dpiRuleAdd_hdl_of_stop {env : PolicyEnv} {hdl : Hdl} {keyL : RuleKey}
    {keyH : Option RuleKey} {apps : List AppRule} {dir : RuleDir} {desc : Desc}
    (stop : (dpiRuleAddOne env hdl keyL keyH dir desc Desc.zero).ret = 0 ∧
      0 < (dpiRuleAddOne env hdl keyL keyH dir desc Desc.zero).existDesc.id ∧
      (dpiRuleAddOne env hdl keyL keyH dir desc Desc.zero).existDesc.action ≠
        dpPolicyActionCheckApp) :
    (dpiRuleAdd env hdl keyL keyH apps dir desc).2.1 =
      (dpiRuleAddOne env hdl keyL keyH dir desc Desc.zero).hdl := by
  simp only [dpiRuleAdd]
  rw [if_neg (by omega), if_pos stop]

theorem dpiRuleAdd_hdl_of_continue {env : PolicyEnv} {hdl : Hdl} {keyL : RuleKey}
    {keyH : Option RuleKey} {apps : List AppRule} {dir : RuleDir} {desc : Desc}
    (valid : 0 ≤ (dpiRuleAddOne env hdl keyL keyH dir desc Desc.zero).ret)
    (go : ¬ ((dpiRuleAddOne env hdl keyL keyH dir desc Desc.zero).ret = 0 ∧
      0 < (dpiRuleAddOne env hdl keyL keyH dir desc Desc.zero).existDesc.id ∧
      (dpiRuleAddOne env hdl keyL keyH dir desc Desc.zero).existDesc.action ≠
        dpPolicyActionCheckApp)) :
    (dpiRuleAdd env hdl keyL keyH apps dir desc).2.1 =
      let any := anyAppPass env keyL keyH dir desc (dpiRuleAddOne env hdl keyL keyH dir desc Desc.zero)
      (addAppRules env dir desc any.result.hdl any.keyL any.keyH any.result.existDesc any.result.ret
        apps).2.1 := by
  simp only [dpiRuleAdd]
  rw [if_neg (by omega), if_neg go]
  split
  · rename_i none
    subst none
    rfl
  · rfl

/-! ### What the add functions change -/

theorem setRange_same (hdl : Hdl) (k : RangeKey) (items : List RangeItem) :
    (hdl.setRange k items).rangePolicyMap k = items := by
  simp [Hdl.setRange]

theorem setRange_other (hdl : Hdl) {k k' : RangeKey} (items : List RangeItem) (other : k' ≠ k) :
    (hdl.setRange k items).rangePolicyMap k' = hdl.rangePolicyMap k' := by
  simp [Hdl.setRange, Function.update_of_ne other]

@[simp] theorem setRange_policyMap (hdl : Hdl) (k : RangeKey) (items : List RangeItem) :
    (hdl.setRange k items).policyMap = hdl.policyMap := rfl

@[simp] theorem setRange_defAction (hdl : Hdl) (k : RangeKey) (items : List RangeItem) :
    (hdl.setRange k items).defAction = hdl.defAction := rfl

@[simp] theorem setRange_applyDir (hdl : Hdl) (k : RangeKey) (items : List RangeItem) :
    (hdl.setRange k items).applyDir = hdl.applyDir := rfl

@[simp] theorem addExact_range (hdl : Hdl) (k : RuleKey) (d : Desc) :
    (hdl.addExact k d).rangePolicyMap = hdl.rangePolicyMap := rfl

theorem dpiRangeRuleAdd_cases (hdl : Hdl) {keyL keyH : RuleKey} {dir : RuleDir} {key : RangeKey}
    (desc existDesc : Desc) (hkey : getRangeKey keyL keyH dir = some key) :
    (∃ p ∈ hdl.rangePolicyMap key, p.keyL = keyL ∧ p.keyH = keyH ∧
        dpiRangeRuleAdd hdl keyL keyH dir desc existDesc = ⟨0, hdl, p.desc⟩) ∨
      dpiRangeRuleAdd hdl keyL keyH dir desc existDesc =
        ⟨1, hdl.setRange key (hdl.rangePolicyMap key ++ [⟨desc, keyL, keyH⟩]), existDesc⟩ := by
  simp only [dpiRangeRuleAdd, hkey]
  cases found : (hdl.rangePolicyMap key).find? (fun p => decide (p.keyL = keyL ∧ p.keyH = keyH)) with
  | some p =>
    have same := List.find?_some found
    simp only [decide_eq_true_eq] at same
    exact .inl ⟨p, List.mem_of_find?_eq_some found, same.1, same.2, rfl⟩
  | none => exact .inr rfl

theorem exactLookup_addExact (hdl : Hdl) (k k' : RuleKey) (d : Desc) :
    (hdl.addExact k d).exactLookup k' =
      match hdl.exactLookup k' with
      | some found => some found
      | none => if k = k' then some d else none := by
  simp only [Hdl.exactLookup, Hdl.addExact, List.find?_append, List.find?_cons, List.find?_nil]
  cases hdl.policyMap.find? (fun entry => decide (entry.1 = k')) with
  | some found => simp
  | none => by_cases same : k = k' <;> simp [same]

theorem exactLookup_append {h h' : Hdl} (k : RuleKey) {new : List (RuleKey × Desc)}
    (grow : h'.policyMap = h.policyMap ++ new) :
    h'.exactLookup k =
      (h.exactLookup k).or ((new.find? fun entry => decide (entry.1 = k)).map Prod.snd) := by
  simp only [Hdl.exactLookup, grow, List.find?_append]
  cases h.policyMap.find? (fun entry => decide (entry.1 = k)) <;> rfl

theorem exactLookup_isSome_append {h h' : Hdl} {k : RuleKey} {new : List (RuleKey × Desc)}
    (grow : h'.policyMap = h.policyMap ++ new) (found : (h.exactLookup k).isSome) :
    (h'.exactLookup k).isSome := by
  simp only [Hdl.exactLookup, grow, List.find?_append, Option.isSome_map, Option.isSome_or] at found ⊢
  simp [found]

end MicroSegment.Dp.Policy
