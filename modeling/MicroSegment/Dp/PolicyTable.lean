import MicroSegment.Dp.PolicyCfg
import MicroSegment.Lib.FirstMatch

/-!
# Dataplane policy table: what a handle built from a rule list holds

`Built env rs hdl` says what the handle built from the rules `rs` holds, as far as lookups of
application 0 see it: every exact entry is a single-point rule that no earlier rule covers, every
such rule whose key is not shadowed is in the exact map, every range item carries the bounds and
the order of its rule, the lists are sorted by order, and a rule's own item comes before the other
items of its bounds. From it `lookupRaw_cases`, `lookupRaw_first` and `tableLookup_verdict` give
what the raw lookup and the table part of the full lookup return: the descriptor of the first rule
that covers the key, and for an external peer the earlier of that and the first rule covering the
key with remote address 0.
-/

namespace MicroSegment.Dp.Policy

open FirstMatch

/-- A rule of the kind the first-match statement is about: positive id, one protocol, no FQDN,
and the local address a single point. -/
def RuleCfgOk (r : PolicyRuleCfg) : Prop :=
  0 < r.id ∧ 0 < r.proto ∧ r.fqdn = "" ∧ (r.ingress = true → r.dip = r.dipR) ∧
    (r.ingress = false → r.sip = r.sipR)

def ruleUpper (r : PolicyRuleCfg) : RuleKey := ⟨r.sipR, r.dipR, r.dportR, r.proto, 0⟩

/-- The range list `dpi_rule_add` puts the items of a rule in. -/
def ruleRangeKey (r : PolicyRuleCfg) : RangeKey := rangeKeyOf (ruleKey r) r.ingress

def covers (r : PolicyRuleCfg) (k : RuleKey) (isIngress : Bool) : Bool :=
  r.ingress == isIngress && r.proto == k.proto && isXInRange k.sip r.sip r.sipR &&
    isXInRange k.dip r.dip r.dipR && isXInRange k.dport r.dport r.dportR

def isExternal (env : PolicyEnv) (k : RuleKey) (isIngress : Bool) : Bool :=
  !env.dpiIsIp4Internal (remoteOf k isIngress)

def matchesKey (external : Bool) (k : RuleKey) (isIngress : Bool) (r : PolicyRuleCfg) : Bool :=
  covers r k isIngress || (external && covers r (remoteZero k isIngress) isIngress)

/-- No single-point rule of the other direction has the key: the exact map ignores direction. -/
def CrossFree (rs : List PolicyRuleCfg) (k : RuleKey) (isIngress : Bool) : Prop :=
  ∀ r ∈ rs, ruleKeyR r = none → r.ingress ≠ isIngress → ruleKey r ≠ k

def RangeItem.span (x : RangeItem) : RuleKey × RuleKey := (x.keyL, { x.keyH with app := 0 })

def withPeer (d : Desc) (isInternal : Bool) : Desc :=
  { d with flags := d.flags ||| (if isInternal then policyDescInternal else policyDescExternal) }

/-- The lookup of a key, and for an external peer of the key with remote address 0, meets no
single-point rule of the other direction with the same key. -/
def LookupSafe (env : PolicyEnv) (rs : List PolicyRuleCfg) (k : RuleKey) (isIngress : Bool) :
    Prop :=
  CrossFree rs k isIngress ∧
    (isExternal env k isIngress = true → CrossFree rs (remoteZero k isIngress) isIngress)

def firstMatch (env : PolicyEnv) (rs : List PolicyRuleCfg) (k : RuleKey) (isIngress : Bool) :
    Option PolicyRuleCfg :=
  rs.find? (matchesKey (isExternal env k isIngress) k isIngress)

def Desc.verdict (d : Desc) : Nat × Nat := (d.id, d.action)

/-- The last step of `_dpi_policy_lookup_by_key`: the list without a direction, else the
default. -/
def noDirResult (hdl : Hdl) (k : RuleKey) : Desc :=
  match dpiRangeRuleMatch (hdl.rangePolicyMap (noDirKey k)) k with
  | some item => item.desc
  | none => noMatchDesc hdl

/-! ### The invariant -/

/-- What the handle built from the rules `rs` holds, for lookups of application 0. Lists with
flag 0 hold only rules without a rule id and without an order (the default ICMP rule). -/
structure Built (env : PolicyEnv) (rs : List PolicyRuleCfg) (hdl : Hdl) : Prop where
  flag : hdl.flag = 0
  exactSound : ∀ e ∈ hdl.policyMap, e.1.app = 0 → ∃ i r, rs[i]? = some r ∧ ruleKeyR r = none ∧
    ruleKey r = e.1 ∧ e.2 = ruleDesc r (i + 1) ∧ NoneBefore rs i (covers · e.1 r.ingress)
  exactComplete : ∀ i r, rs[i]? = some r → ruleKeyR r = none →
    NoneBefore rs i (matchesKey (isExternal env (ruleKey r) r.ingress) (ruleKey r) r.ingress) →
    (hdl.exactLookup (ruleKey r)).isSome
  rangeSound : ∀ L, L.flag ≠ 0 → ∀ x ∈ hdl.rangePolicyMap L, x.keyL.app = 0 →
    ∃ i r, rs[i]? = some r ∧ ruleRangeKey r = L ∧ x.span = (ruleKey r, ruleUpper r) ∧
      x.desc.order = i + 1
  rangeBound : ∀ L, L.flag ≠ 0 → ∀ x ∈ hdl.rangePolicyMap L, x.desc.order ≤ rs.length
  rangeSorted : ∀ L, L.flag ≠ 0 → (hdl.rangePolicyMap L).Pairwise (·.desc.order ≤ ·.desc.order)
  mainFirst : ∀ L pre x post, L.flag ≠ 0 → hdl.rangePolicyMap L = pre ++ x :: post →
    x.keyL.app = 0 → ∀ r, rs[x.desc.order - 1]? = some r → ruleKeyR r ≠ none →
    (∃ a ∈ pre, a.span = x.span) ∨ x.desc = ruleDesc r x.desc.order
  mainPresent : ∀ i r, rs[i]? = some r → ruleKeyR r ≠ none →
    ∃ x ∈ hdl.rangePolicyMap (ruleRangeKey r), x.span = (ruleKey r, ruleUpper r) ∧
      x.desc.order ≤ i + 1
  noDir : ∀ L, L.flag = 0 → ∀ x ∈ hdl.rangePolicyMap L, x.desc.id = 0 ∧ x.desc.order = 0xffffffff

theorem isXInRange_iff {x y z : Nat} : isXInRange x y z = true ↔ y ≤ x ∧ x ≤ z := by
  simp [isXInRange]

theorem ruleKeyR_none_iff {r : PolicyRuleCfg} :
    ruleKeyR r = none ↔ r.dport = r.dportR ∧ r.sip = r.sipR ∧ r.dip = r.dipR := by
  unfold ruleKeyR
  split
  · rename_i differ
    simp only [reduceCtorEq, false_iff]
    omega
  · rename_i same
    simp only [true_iff]
    omega

theorem ruleKeyR_eq (r : PolicyRuleCfg) : ruleKeyR r = none ∨ ruleKeyR r = some (ruleUpper r) := by
  unfold ruleKeyR
  split
  · exact .inr rfl
  · exact .inl rfl

theorem ruleUpper_of_point {r : PolicyRuleCfg} (point : ruleKeyR r = none) :
    ruleUpper r = ruleKey r := by
  obtain ⟨dport, sip, dip⟩ := ruleKeyR_none_iff.mp point
  simp [ruleUpper, ruleKey, dport, sip, dip]

theorem covers_point {r : PolicyRuleCfg} {k : RuleKey} {isIngress : Bool}
    (point : ruleKeyR r = none) (app : k.app = 0) :
    covers r k isIngress = true ↔ r.ingress = isIngress ∧ ruleKey r = k := by
  obtain ⟨dport, sip, dip⟩ := ruleKeyR_none_iff.mp point
  obtain ⟨ks, kd, kp, kproto, kapp⟩ := k
  simp only [covers, ruleKey, isXInRange, ← dport, ← sip, ← dip, Bool.and_eq_true, beq_iff_eq,
    decide_eq_true_eq, RuleKey.mk.injEq] at app ⊢
  constructor
  · rintro ⟨⟨⟨⟨same, proto⟩, s⟩, d⟩, p⟩
    exact ⟨same, by omega, by omega, by omega, proto, app.symm⟩
  · rintro ⟨same, s, d, p, proto, -⟩
    exact ⟨⟨⟨⟨same, proto⟩, by omega⟩, by omega⟩, by omega⟩

theorem rangeKeyOf_eq {k k' : RuleKey} {d d' : Bool} (same : rangeKeyOf k d = rangeKeyOf k' d') :
    d = d' ∧ k.proto = k'.proto := by
  cases d <;> cases d' <;>
    simp_all [rangeKeyOf, dpRangeRuleIngress, dpRangeRuleEgress, RangeKey.mk.injEq]

theorem rangeKeyOf_flag (k : RuleKey) (d : Bool) : (rangeKeyOf k d).flag ≠ 0 := by
  cases d <;> simp [rangeKeyOf, dpRangeRuleIngress, dpRangeRuleEgress]

theorem ruleRangeKey_flag (r : PolicyRuleCfg) : (ruleRangeKey r).flag ≠ 0 := rangeKeyOf_flag _ _

theorem rangeKeyOf_of_covers {r : PolicyRuleCfg} {k : RuleKey} {d : Bool} (ok : RuleCfgOk r)
    (cov : covers r k d = true) : rangeKeyOf k d = ruleRangeKey r := by
  obtain ⟨-, -, -, ingressPoint, egressPoint⟩ := ok
  simp only [covers, isXInRange, Bool.and_eq_true, beq_iff_eq, decide_eq_true_eq] at cov
  obtain ⟨⟨⟨⟨same, proto⟩, s⟩, dd⟩, -⟩ := cov
  subst same
  cases hd : r.ingress
  · have := egressPoint hd
    simp [ruleRangeKey, rangeKeyOf, ruleKey, hd, proto]
    omega
  · have := ingressPoint hd
    simp [ruleRangeKey, rangeKeyOf, ruleKey, hd, proto]
    omega

theorem ruleKeyInRange_span {x : RangeItem} {r : PolicyRuleCfg} {k : RuleKey} {d : Bool}
    (span : x.span = (ruleKey r, ruleUpper r)) (app : k.app = 0)
    (list : rangeKeyOf k d = ruleRangeKey r) : ruleKeyInRange x k = covers r k d := by
  obtain ⟨same, proto⟩ := rangeKeyOf_eq list
  have proto' : k.proto = r.proto := by simpa [ruleKey] using proto
  obtain ⟨desc, keyL, ⟨hs, hd, hp, hpr, ha⟩⟩ := x
  simp only [RangeItem.span, Prod.mk.injEq, ruleKey, ruleUpper, RuleKey.mk.injEq] at span
  obtain ⟨rfl, hs', hd', hp', -, -⟩ := span
  subst hs' hd' hp'
  rw [Bool.eq_iff_iff]
  simp only [ruleKeyInRange, covers, isXInRange, app, ← same, proto', Bool.and_eq_true,
    decide_eq_true_eq, beq_self_eq_true, Nat.le_refl, Nat.zero_le, and_true, true_and]
  tauto

theorem ruleKeyInRange_congr {a x : RangeItem} {k : RuleKey} (same : a.span = x.span)
    (app : k.app = 0) : ruleKeyInRange a k = ruleKeyInRange x k := by
  simp only [RangeItem.span, Prod.mk.injEq] at same
  obtain ⟨lower, upper⟩ := same
  have sip := congrArg RuleKey.sip upper
  have dip := congrArg RuleKey.dip upper
  have dport := congrArg RuleKey.dport upper
  simp only at sip dip dport
  simp [ruleKeyInRange, isXInRange, app, lower, sip, dip, dport]

theorem keyL_app_of_inRange {x : RangeItem} {k : RuleKey} (app : k.app = 0)
    (inRange : ruleKeyInRange x k = true) : x.keyL.app = 0 := by
  simp only [ruleKeyInRange, isXInRange, app, Bool.and_eq_true, decide_eq_true_eq] at inRange
  omega

theorem remoteZero_app {k : RuleKey} (d : Bool) (app : k.app = 0) : (remoteZero k d).app = 0 := by
  cases d <;> simpa [remoteZero] using app

theorem remoteZero_remoteZero (k : RuleKey) (d : Bool) :
    remoteZero (remoteZero k d) d = remoteZero k d := by
  cases d <;> rfl

theorem matchesKey_of_covers {e : Bool} {k : RuleKey} {d : Bool} {r : PolicyRuleCfg}
    (cov : covers r k d = true) : matchesKey e k d r = true := by
  simp [matchesKey, cov]

theorem matchesKey_remoteZero (e : Bool) (k : RuleKey) (d : Bool) (r : PolicyRuleCfg) :
    matchesKey e (remoteZero k d) d r = covers r (remoteZero k d) d := by
  cases hc : covers r (remoteZero k d) d <;> simp [matchesKey, remoteZero_remoteZero, hc]

@[simp] theorem withPeer_verdict (d : Desc) (isInternal : Bool) :
    (withPeer d isInternal).verdict = d.verdict := rfl

@[simp] theorem ruleDesc_verdict (r : PolicyRuleCfg) (order : Nat) :
    (ruleDesc r order).verdict = (r.id, r.action) := rfl

/-! ### The raw lookup on a built handle -/

section Raw

variable {env : PolicyEnv} {rs : List PolicyRuleCfg} {hdl : Hdl} {k : RuleKey} {d : Bool}

theorem lookupRaw_eq (hdl : Hdl) (k : RuleKey) (d : Bool) :
    dpiPolicyLookupByKeyRaw hdl k d =
      match hdl.exactLookup k with
      | some e => e
      | none =>
        match dpiRangeRuleMatch (hdl.rangePolicyMap (rangeKeyOf k d)) k with
        | some item => item.desc
        | none => noDirResult hdl k := rfl

theorem noDirResult_id_order (built : Built env rs hdl) (k : RuleKey) :
    (noDirResult hdl k).id = 0 ∧ (noDirResult hdl k).order = 0xffffffff := by
  unfold noDirResult
  split
  · rename_i item found
    exact built.noDir _ rfl item (dpiRangeRuleMatch_some found).2
  · exact ⟨rfl, rfl⟩

theorem exactLookup_sound {e : Desc} (built : Built env rs hdl) (app : k.app = 0)
    (cross : CrossFree rs k d) (found : hdl.exactLookup k = some e) :
    ∃ i r, rs[i]? = some r ∧ ruleKeyR r = none ∧ covers r k d = true ∧ e = ruleDesc r (i + 1) ∧
      NoneBefore rs i (covers · k d) := by
  simp only [Hdl.exactLookup, Option.map_eq_some_iff] at found
  obtain ⟨entry, hfind, rfl⟩ := found
  have key : entry.1 = k := by simpa using List.find?_some hfind
  obtain ⟨i, r, get, point, hk, he, none⟩ :=
    built.exactSound entry (List.mem_of_find?_eq_some hfind) (key ▸ app)
  -- the exact map ignores direction: `CrossFree` rules out a rule of the other one
  have dir : r.ingress = d := by
    by_contra ne
    exact cross r (List.mem_of_getElem? get) point ne (hk.trans key)
  rw [key] at hk none
  rw [dir] at none
  exact ⟨i, r, get, point, (covers_point point app).mpr ⟨dir, hk⟩, he, none⟩

theorem rangeMatch_sound {x : RangeItem} (built : Built env rs hdl) (app : k.app = 0)
    (found : dpiRangeRuleMatch (hdl.rangePolicyMap (rangeKeyOf k d)) k = some x) :
    ∃ i r, rs[i]? = some r ∧ covers r k d = true ∧ x.desc.order = i + 1 := by
  obtain ⟨hold, mem⟩ := dpiRangeRuleMatch_some found
  obtain ⟨i, r, get, list, span, order⟩ :=
    built.rangeSound _ (rangeKeyOf_flag k d) x mem (keyL_app_of_inRange app hold)
  exact ⟨i, r, get, (ruleKeyInRange_span span app list.symm) ▸ hold, order⟩

/-- The raw lookup finds the list without a direction, or a rule covering the key. -/
theorem lookupRaw_cases (built : Built env rs hdl) (app : k.app = 0) (cross : CrossFree rs k d) :
    dpiPolicyLookupByKeyRaw hdl k d = noDirResult hdl k ∨
      ∃ i r, rs[i]? = some r ∧ covers r k d = true ∧
        (dpiPolicyLookupByKeyRaw hdl k d).order = i + 1 := by
  rw [lookupRaw_eq]
  cases hExact : hdl.exactLookup k with
  | some e =>
    obtain ⟨i, r, get, -, cov, rfl, -⟩ := exactLookup_sound built app cross hExact
    exact .inr ⟨i, r, get, cov, rfl⟩
  | none =>
    cases hRange : dpiRangeRuleMatch (hdl.rangePolicyMap (rangeKeyOf k d)) k with
    | some x =>
      obtain ⟨i, r, get, cov, order⟩ := rangeMatch_sound built app hRange
      exact .inr ⟨i, r, get, cov, order⟩
    | none => exact .inl rfl

theorem lookupRaw_not_before {f : Nat} (built : Built env rs hdl) (app : k.app = 0)
    (cross : CrossFree rs k d) (none : NoneBefore rs f (covers · k d)) :
    (dpiPolicyLookupByKeyRaw hdl k d).id = 0 ∧
        (dpiPolicyLookupByKeyRaw hdl k d).order = 0xffffffff ∨
      ∃ i, f ≤ i ∧ i < rs.length ∧ (dpiPolicyLookupByKeyRaw hdl k d).order = i + 1 := by
  rcases lookupRaw_cases built app cross with raw | ⟨i, r, get, cov, order⟩
  · exact .inl (raw ▸ noDirResult_id_order built k)
  · have notBefore : ¬ i < f := fun lt => by simp [none i r lt get] at cov
    exact .inr ⟨i, by omega, (List.getElem?_eq_some_iff.mp get).1, order⟩

theorem lookupRaw_of_none (built : Built env rs hdl) (app : k.app = 0) (cross : CrossFree rs k d)
    (none : NoneBefore rs rs.length (covers · k d)) :
    dpiPolicyLookupByKeyRaw hdl k d = noDirResult hdl k := by
  rcases lookupRaw_cases built app cross with raw | ⟨i, r, get, cov, -⟩
  · exact raw
  · have := none i r (List.getElem?_eq_some_iff.mp get).1 get
    simp [cov] at this

/-- The raw lookup returns the first rule that matches the key, when that rule covers it. -/
theorem lookupRaw_first {f : Nat} {r : PolicyRuleCfg} (built : Built env rs hdl)
    (ok : ∀ r ∈ rs, RuleCfgOk r) (app : k.app = 0) (cross : CrossFree rs k d)
    (get : rs[f]? = some r) (cov : covers r k d = true)
    (first : NoneBefore rs f (matchesKey (isExternal env k d) k d)) :
    dpiPolicyLookupByKeyRaw hdl k d = ruleDesc r (f + 1) := by
  -- an exact entry for the key can only be the first rule's own
  have exactOnly : ∀ e, hdl.exactLookup k = some e → ruleKeyR r = none ∧ e = ruleDesc r (f + 1) := by
    intro e found
    obtain ⟨i, r', get', point, cov', he, none⟩ := exactLookup_sound built app cross found
    obtain rfl : i = f := none.index_eq first get' get cov (matchesKey_of_covers cov')
    obtain rfl : r' = r := Option.some.inj (get'.symm.trans get)
    exact ⟨point, he⟩
  rw [lookupRaw_eq]
  cases point : ruleKeyR r with
  | none =>
    obtain ⟨dir, key⟩ := (covers_point point app).mp cov
    have present := built.exactComplete f r get point (by rw [key, dir]; exact first)
    obtain ⟨e, found⟩ := Option.isSome_iff_exists.mp present
    rw [key] at found
    simp only [found, (exactOnly e found).2]
  | some upper =>
    have noExact : hdl.exactLookup k = none := by
      cases found : hdl.exactLookup k with
      | none => rfl
      | some e => simp [(exactOnly e found).1] at point
    have list : rangeKeyOf k d = ruleRangeKey r :=
      rangeKeyOf_of_covers (ok r (List.mem_of_getElem? get)) cov
    -- the rule's own bounds are in the list, at an order no later than its own
    obtain ⟨y, yMem, ySpan, yOrder⟩ := built.mainPresent f r get (by simp [point])
    have yHolds : ruleKeyInRange y k = true := (ruleKeyInRange_span ySpan app list).trans cov
    rw [← list] at yMem
    cases found : dpiRangeRuleMatch (hdl.rangePolicyMap (rangeKeyOf k d)) k with
    | none => exact absurd yHolds (dpiRangeRuleMatch_eq_none.mp found y yMem)
    | some x =>
      obtain ⟨j, r', get', cov', xOrder⟩ := rangeMatch_sound built app found
      obtain ⟨xHolds, pre, post, eqList, preFail⟩ := dpiRangeRuleMatch_eq_some_iff.mp found
      -- the list is sorted and `y` holds the key, so the first item that does is no later
      have le : x.desc.order ≤ y.desc.order := by
        have sorted := built.rangeSorted _ (rangeKeyOf_flag k d)
        rw [eqList] at sorted yMem
        rcases List.mem_append.mp yMem with inPre | inRest
        · have yFails := preFail y inPre
          simp [yHolds] at yFails
        · rcases List.mem_cons.mp inRest with rfl | inPost
          · exact le_refl _
          · exact (List.pairwise_cons.mp (List.pairwise_append.mp sorted).2.1).1 y inPost
      have notBefore : ¬ j < f := fun lt => by
        have shadowed := first j r' lt get'
        rw [matchesKey_of_covers cov'] at shadowed
        contradiction
      obtain rfl : j = f := by omega
      obtain rfl : r' = r := Option.some.inj (get'.symm.trans get)
      have xGet : rs[x.desc.order - 1]? = some r' := by simpa [xOrder] using get'
      rcases built.mainFirst _ pre x post (rangeKeyOf_flag k d) eqList
          (keyL_app_of_inRange app xHolds) r' xGet (by simp [point]) with ⟨a, aPre, aSpan⟩ | desc
      · have aFails := preFail a aPre
        rw [ruleKeyInRange_congr aSpan app, xHolds] at aFails
        contradiction
      · simp only [noExact]
        rw [desc, xOrder]

end Raw

section Table

variable {env : PolicyEnv} {rs : List PolicyRuleCfg} {hdl : Hdl} {k : RuleKey} {d : Bool}

theorem tableLookup_of_flag (env : PolicyEnv) {hdl : Hdl} (flag : hdl.flag = 0) (k : RuleKey)
    (d isInternal : Bool) :
    tableLookup env hdl k d isInternal =
      if isInternal then withPeer (dpiPolicyLookupByKeyRaw hdl k d) true
      else withPeer (policyDescMerge (dpiPolicyLookupByKeyRaw hdl k d)
        (dpiPolicyLookupByKeyRaw hdl (remoteZero k d) d)) false := by
  cases isInternal <;> simp [tableLookup, flag, withPeer]

theorem noneBefore_remoteZero {f : Nat} (ext : isExternal env k d = true)
    (first : NoneBefore rs f (matchesKey (isExternal env k d) k d)) :
    NoneBefore rs f (covers · (remoteZero k d) d) :=
  first.mono fun r c => by simp [matchesKey, ext, c]

/-- On a built handle the table part of the lookup gives the rule id and action of the first
matching rule, or of the list without a direction when no rule matches. -/
theorem tableLookup_verdict (built : Built env rs hdl) (ok : ∀ r ∈ rs, RuleCfgOk r)
    (short : rs.length < 0xffffffff) (app : k.app = 0) (safe : LookupSafe env rs k d) :
    (tableLookup env hdl k d (env.dpiIsIp4Internal (remoteOf k d))).verdict =
      match firstMatch env rs k d with
      | some r => (r.id, r.action)
      | none => (noDirResult hdl k).verdict := by
  obtain ⟨cross, crossZero⟩ := safe
  have appZero := remoteZero_app d app
  rw [tableLookup_of_flag env built.flag]
  cases found : firstMatch env rs k d with
  | none =>
    have none := noneBefore_of_find?_none found
    rw [lookupRaw_of_none built app cross (none.mono fun _ => matchesKey_of_covers)]
    cases internal : env.dpiIsIp4Internal (remoteOf k d)
    · -- the lookup with remote address 0 finds no rule either
      have ext : isExternal env k d = true := by simp [isExternal, internal]
      rcases lookupRaw_not_before built appZero (crossZero ext) (noneBefore_remoteZero ext none)
        with ⟨zero, -⟩ | ⟨i, le, lt, -⟩
      · simp [policyDescMerge_of_not_lt (.inl zero)]
      · omega
    · simp
  | some r =>
    obtain ⟨f, get, first⟩ := exists_noneBefore_of_find? found
    have matched := List.find?_some found
    have pos : 0 < r.id := (ok r (List.mem_of_getElem? get)).1
    have bound : f < rs.length := (List.getElem?_eq_some_iff.mp get).1
    by_cases cov : covers r k d = true
    · -- the key itself is covered first: the lookup with remote address 0 finds nothing earlier
      rw [lookupRaw_first built ok app cross get cov first]
      cases internal : env.dpiIsIp4Internal (remoteOf k d)
      · have ext : isExternal env k d = true := by simp [isExternal, internal]
        rcases lookupRaw_not_before built appZero (crossZero ext) (noneBefore_remoteZero ext first)
          with ⟨zero, -⟩ | ⟨i, le, -, order⟩
        · simp [policyDescMerge_of_not_lt (.inl zero)]
        · have keep : policyDescMerge (ruleDesc r (f + 1))
              (dpiPolicyLookupByKeyRaw hdl (remoteZero k d) d) = ruleDesc r (f + 1) :=
            policyDescMerge_of_not_lt (.inr (by simp only [ruleDesc, order]; omega))
          simp [keep]
      · simp
    · -- only the key with remote address 0 is covered, so the peer is external
      have ext : isExternal env k d = true := by
        cases e : isExternal env k d <;> simp_all [matchesKey, firstMatch]
      have covZ : covers r (remoteZero k d) d = true := by
        simpa [matchesKey, cov, ext] using matched
      have internal : env.dpiIsIp4Internal (remoteOf k d) = false := by
        simpa [isExternal] using ext
      have firstZ : NoneBefore rs f
          (matchesKey (isExternal env (remoteZero k d) d) (remoteZero k d) d) := by
        intro i r' lt get'
        rw [matchesKey_remoteZero]
        exact noneBefore_remoteZero ext first i r' lt get'
      rw [lookupRaw_first built ok appZero (crossZero ext) get covZ firstZ, internal]
      -- the key itself is covered only after `f`, if at all
      have after : NoneBefore rs (f + 1) (covers · k d) := by
        intro i r' lt get'
        rcases Nat.lt_succ_iff_lt_or_eq.mp lt with lt | rfl
        · exact first.mono (fun _ => matchesKey_of_covers) i r' lt get'
        · rw [get] at get'
          cases get'
          simpa using cov
      have later : f + 1 < (dpiPolicyLookupByKeyRaw hdl k d).order := by
        rcases lookupRaw_not_before built app cross after with ⟨-, order⟩ | ⟨i, le, -, order⟩
        · omega
        · omega
      have second : policyDescMerge (dpiPolicyLookupByKeyRaw hdl k d) (ruleDesc r (f + 1)) =
          ruleDesc r (f + 1) := policyDescMerge_of_lt pos later
      simp [second]

theorem lookupByKey_verdict (built : Built env rs hdl) (ok : ∀ r ∈ rs, RuleCfgOk r)
    (short : rs.length < 0xffffffff) (app : k.app = 0) (safe : LookupSafe env rs k d)
    {isNbe : Bool} (reached : consulted env hdl k d isNbe = true) (desc : Desc) :
    (dpiPolicyLookupByKey env (some hdl) k.sip k.dip k.dport k.proto k.app d desc isNbe).verdict =
      match firstMatch env rs k d with
      | some r => (r.id, r.action)
      | none => (noDirResult hdl k).verdict := by
  rw [dpiPolicyLookupByKey_consulted desc reached]
  exact tableLookup_verdict built ok short app safe

end Table

end MicroSegment.Dp.Policy
