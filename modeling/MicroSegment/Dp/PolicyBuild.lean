import Mathlib
import MicroSegment.Dp.PolicyTable

/-!
# Dataplane policy table: the rule loop keeps `Built`

Adding the rule `r` after the rules `rs` to a handle built from `rs` gives a handle built from
`rs ++ [r]`. The first add of `dpi_rule_add` is the step that decides (`grows_first_point`,
`grows_first_range`); the rule for any application and the application rules after it are
`Harmless`: they append exact entries for applications other than 0, and items with the rule's own
bounds and order. `Grows` collects what one rule may do to a handle, `Built.grows` is the step
lemma and `cfgRules_built` the run lemma over the rule loop of `dpi_policy_cfg`.
-/

namespace MicroSegment.Dp.Policy

open FirstMatch

/-! ### What adding rules leaves alone -/

/-- The fields of a handle that adding rules keeps: those the short-cuts of a lookup read, the
FQDN flag, and the lists without a direction. -/
structure Hdl.Frame (h h' : Hdl) : Prop where
  defAction : h'.defAction = h.defAction
  applyDir : h'.applyDir = h.applyDir
  flag : h'.flag = h.flag
  noDir : ∀ L : RangeKey, L.flag = 0 → h'.rangePolicyMap L = h.rangePolicyMap L

theorem Hdl.Frame.refl (h : Hdl) : h.Frame h := ⟨rfl, rfl, rfl, fun _ _ => rfl⟩

theorem Hdl.Frame.trans {h₁ h₂ h₃ : Hdl} (a : h₁.Frame h₂) (b : h₂.Frame h₃) : h₁.Frame h₃ :=
  ⟨b.defAction.trans a.defAction, b.applyDir.trans a.applyDir, b.flag.trans a.flag,
    fun L flag => (b.noDir L flag).trans (a.noDir L flag)⟩

theorem consulted_congr {env : PolicyEnv} {h h' : Hdl} (applyDir : h'.applyDir = h.applyDir)
    (defAction : h'.defAction = h.defAction) (k : RuleKey) (d n : Bool) :
    consulted env h' k d n = consulted env h k d n := by
  simp only [consulted, applyDir, defAction]

theorem consulted_frame {env : PolicyEnv} {h h' : Hdl} (frame : h.Frame h') (k : RuleKey)
    (d n : Bool) : consulted env h' k d n = consulted env h k d n :=
  consulted_congr frame.applyDir frame.defAction k d n

theorem Hdl.Frame.setRange (h : Hdl) {L : RangeKey} (flag : L.flag ≠ 0) (items : List RangeItem) :
    h.Frame (h.setRange L items) :=
  ⟨rfl, rfl, rfl, fun _ flag' => setRange_other _ _ (by rintro rfl; exact flag flag')⟩

theorem Hdl.Frame.addExact (h : Hdl) (k : RuleKey) (d : Desc) : h.Frame (h.addExact k d) :=
  ⟨rfl, rfl, rfl, fun _ _ => rfl⟩

/-- An item that a pass of `dpi_rule_add` for the rule `r` of index `i` appends to the list `L`:
the rule's list and order, and at application 0 the rule's bounds. -/
def ItemOf (r : PolicyRuleCfg) (i : Nat) (L : RangeKey) (x : RangeItem) : Prop :=
  L = ruleRangeKey r ∧ x.desc.order = i + 1 ∧ (x.keyL.app = 0 → x.span = (ruleKey r, ruleUpper r))

/-- What the passes of `dpi_rule_add` after its first add may do for the rule `r` of index `i`. -/
structure Harmless (r : PolicyRuleCfg) (i : Nat) (h h' : Hdl) : Prop where
  defAction : h'.defAction = h.defAction
  applyDir : h'.applyDir = h.applyDir
  flag : h'.flag = h.flag
  exact : ∃ new, h'.policyMap = h.policyMap ++ new ∧ ∀ e ∈ new, e.1.app ≠ 0
  range : ∀ L, ∃ new, h'.rangePolicyMap L = h.rangePolicyMap L ++ new ∧ ∀ x ∈ new, ItemOf r i L x

theorem Harmless.refl (r : PolicyRuleCfg) (i : Nat) (h : Hdl) : Harmless r i h h :=
  ⟨rfl, rfl, rfl, ⟨[], by simp, by simp⟩, fun _ => ⟨[], by simp, by simp⟩⟩

theorem Harmless.trans {r : PolicyRuleCfg} {i : Nat} {h₁ h₂ h₃ : Hdl} (a : Harmless r i h₁ h₂)
    (b : Harmless r i h₂ h₃) : Harmless r i h₁ h₃ := by
  obtain ⟨new₁, grow₁, app₁⟩ := a.exact
  obtain ⟨new₂, grow₂, app₂⟩ := b.exact
  refine ⟨b.defAction.trans a.defAction, b.applyDir.trans a.applyDir, b.flag.trans a.flag,
    ⟨new₁ ++ new₂, by rw [grow₂, grow₁, List.append_assoc], ?_⟩, fun L => ?_⟩
  · intro e mem
    rcases List.mem_append.mp mem with m | m
    exacts [app₁ e m, app₂ e m]
  · obtain ⟨items₁, eq₁, item₁⟩ := a.range L
    obtain ⟨items₂, eq₂, item₂⟩ := b.range L
    refine ⟨items₁ ++ items₂, by rw [eq₂, eq₁, List.append_assoc], fun x mem => ?_⟩
    rcases List.mem_append.mp mem with m | m
    exacts [item₁ x m, item₂ x m]

theorem Harmless.frame {r : PolicyRuleCfg} {i : Nat} {h h' : Hdl} (harmless : Harmless r i h h') :
    h.Frame h' := by
  refine ⟨harmless.defAction, harmless.applyDir, harmless.flag, fun L flag => ?_⟩
  obtain ⟨items, eq, item⟩ := harmless.range L
  cases items with
  | nil => simpa using eq
  | cons x _ =>
    obtain ⟨rfl, -⟩ := item x (by simp)
    exact absurd flag (ruleRangeKey_flag r)

theorem harmless_setRange {r : PolicyRuleCfg} {i : Nat} (h : Hdl) {x : RangeItem}
    (item : ItemOf r i (ruleRangeKey r) x) :
    Harmless r i h (h.setRange (ruleRangeKey r) (h.rangePolicyMap (ruleRangeKey r) ++ [x])) := by
  refine ⟨rfl, rfl, rfl, ⟨[], by simp, by simp⟩, fun L => ?_⟩
  by_cases same : L = ruleRangeKey r
  · subst same
    exact ⟨[x], setRange_same .., by simpa using item⟩
  · exact ⟨[], by simp [setRange_other _ _ same], by simp⟩

theorem harmless_addExact {r : PolicyRuleCfg} {i : Nat} (h : Hdl) {k : RuleKey} (d : Desc)
    (app : k.app ≠ 0) : Harmless r i h (h.addExact k d) :=
  ⟨rfl, rfl, rfl, ⟨[(k, d)], rfl, by simpa using app⟩, fun _ => ⟨[], by simp, by simp⟩⟩

/-- The keys `dpi_rule_add` passes on for the rule `r`: its own bounds, with some application. -/
def KeyShape (r : PolicyRuleCfg) (keyL : RuleKey) (keyH : Option RuleKey) : Prop :=
  (∃ a, keyL = { ruleKey r with app := a }) ∧
    ((keyH = none ∧ ruleKeyR r = none) ∨ ∃ b, keyH = some { ruleUpper r with app := b })

theorem keyShape_rule (r : PolicyRuleCfg) : KeyShape r (ruleKey r) (ruleKeyR r) := by
  refine ⟨⟨0, rfl⟩, ?_⟩
  rcases ruleKeyR_eq r with point | range
  · exact .inl ⟨point, point⟩
  · exact .inr ⟨0, range⟩

theorem dpiRuleAddOne_harmless (env : PolicyEnv) (hdl : Hdl) {r : PolicyRuleCfg} {i : Nat}
    (a : Nat) (upper : Option RuleKey) (pointApp : upper = none → a ≠ 0)
    (upperOk : ∀ u, upper = some u → u.proto = r.proto ∧ (a = 0 → { u with app := 0 } = ruleUpper r))
    {desc : Desc} (order : desc.order = i + 1) (existDesc : Desc) :
    Harmless r i hdl
      (dpiRuleAddOne env hdl { ruleKey r with app := a } upper (ruleDir r) desc existDesc).hdl := by
  cases upper with
  | none =>
    simp only [dpiRuleAddOne]
    split
    · exact Harmless.refl r i hdl
    · exact harmless_addExact hdl desc (pointApp rfl)
  | some u =>
    obtain ⟨proto, span⟩ := upperOk u rfl
    have hkey : getRangeKey { ruleKey r with app := a } u (ruleDir r) = some (ruleRangeKey r) := by
      rw [getRangeKey_ruleDir r proto.symm, rangeKeyOf_app]
      rfl
    simp only [dpiRuleAddOne]
    rcases dpiRangeRuleAdd_cases hdl desc existDesc hkey with ⟨p, -, -, -, eq⟩ | eq <;> rw [eq]
    · exact Harmless.refl r i hdl
    · refine harmless_setRange hdl ⟨rfl, order, fun app => ?_⟩
      have zero : a = 0 := app
      subst zero
      exact Prod.ext rfl (span rfl)

theorem dpiAddAppRule_harmless (env : PolicyEnv) (hdl : Hdl) {r : PolicyRuleCfg} {i : Nat}
    {keyL : RuleKey} {keyH : Option RuleKey} (shape : KeyShape r keyL keyH) (appRule : AppRule)
    {desc : Desc} (order : desc.order = i + 1) (existDesc : Desc) :
    Harmless r i hdl
        (dpiAddAppRule env hdl keyL keyH appRule (ruleDir r) desc existDesc).result.hdl ∧
      KeyShape r (dpiAddAppRule env hdl keyL keyH appRule (ruleDir r) desc existDesc).keyL
        (dpiAddAppRule env hdl keyL keyH appRule (ruleDir r) desc existDesc).keyH := by
  have appOrder : (appDesc appRule desc).order = i + 1 := order
  obtain ⟨⟨a, rfl⟩, ⟨rfl, point⟩ | ⟨b, rfl⟩⟩ := shape
  · -- a single point: application 0 becomes the range of every application
    refine ⟨?_, ⟨appRule.app, rfl⟩, .inl ⟨rfl, point⟩⟩
    by_cases app0 : appRule.app = 0
    · have upper : ∀ u, some { ruleKey r with app := 0xffffffff } = some u →
          u.proto = r.proto ∧ (appRule.app = 0 → { u with app := 0 } = ruleUpper r) := by
        rintro u ⟨⟩
        exact ⟨rfl, fun _ => (ruleUpper_of_point point).symm⟩
      have step := dpiRuleAddOne_harmless env hdl appRule.app _ (by simp) upper appOrder existDesc
      simpa [dpiAddAppRule, app0] using step
    · have step : Harmless r i hdl _ :=
        dpiRuleAddOne_harmless env hdl appRule.app none (fun _ => app0) (by simp) appOrder existDesc
      simpa [dpiAddAppRule, app0] using step
  · -- a range: every application pass goes to the rule's list
    refine ⟨?_, ⟨appRule.app, rfl⟩,
      .inr ⟨if appRule.app ≠ 0 then appRule.app else 0xffffffff, rfl⟩⟩
    have step := dpiRuleAddOne_harmless env hdl appRule.app
      (some { ruleUpper r with app := if appRule.app ≠ 0 then appRule.app else 0xffffffff })
      (by simp) (by rintro u ⟨⟩; exact ⟨rfl, fun _ => rfl⟩) appOrder existDesc
    simpa [dpiAddAppRule] using step

theorem addAppRules_harmless (env : PolicyEnv) {r : PolicyRuleCfg} {i : Nat} {desc : Desc}
    (order : desc.order = i + 1) (apps : List AppRule) :
    ∀ (hdl : Hdl) (keyL : RuleKey) (keyH : Option RuleKey) (existDesc : Desc) (ret : Int),
      KeyShape r keyL keyH →
      Harmless r i hdl (addAppRules env (ruleDir r) desc hdl keyL keyH existDesc ret apps).2.1 ∧
        KeyShape r (addAppRules env (ruleDir r) desc hdl keyL keyH existDesc ret apps).2.2.1
          (addAppRules env (ruleDir r) desc hdl keyL keyH existDesc ret apps).2.2.2 := by
  induction apps with
  | nil => exact fun hdl _ _ _ _ shape => ⟨Harmless.refl r i hdl, shape⟩
  | cons appRule rest ih =>
    intro hdl keyL keyH existDesc ret shape
    obtain ⟨step, shape'⟩ := dpiAddAppRule_harmless env hdl shape appRule order existDesc
    obtain ⟨run, shapeEnd⟩ := ih _ _ _ _
      (if (dpiAddAppRule env hdl keyL keyH appRule (ruleDir r) desc existDesc).result.ret = 1
        then ret + 1 else ret) shape'
    exact ⟨step.trans run, shapeEnd⟩

theorem anyAppPass_harmless (env : PolicyEnv) {r : PolicyRuleCfg} {i : Nat} {keyL : RuleKey}
    {keyH : Option RuleKey} (shape : KeyShape r keyL keyH) {desc : Desc} (order : desc.order = i + 1)
    (first : AddResult) :
    Harmless r i first.hdl (anyAppPass env keyL keyH (ruleDir r) desc first).result.hdl ∧
      KeyShape r (anyAppPass env keyL keyH (ruleDir r) desc first).keyL
        (anyAppPass env keyL keyH (ruleDir r) desc first).keyH := by
  unfold anyAppPass
  split
  · exact dpiAddAppRule_harmless env first.hdl shape (appAnyRule desc) order first.existDesc
  · exact ⟨Harmless.refl r i first.hdl, shape⟩

theorem dpiRuleAdd_harmless (env : PolicyEnv) (hdl : Hdl) (r : PolicyRuleCfg) {i : Nat}
    {desc : Desc} (order : desc.order = i + 1) (apps : List AppRule) :
    Harmless r i (dpiRuleAddOne env hdl (ruleKey r) (ruleKeyR r) (ruleDir r) desc Desc.zero).hdl
      (dpiRuleAdd env hdl (ruleKey r) (ruleKeyR r) apps (ruleDir r) desc).2.1 := by
  simp only [dpiRuleAdd]
  split
  · exact Harmless.refl ..
  split
  · exact Harmless.refl ..
  obtain ⟨any, shape⟩ := anyAppPass_harmless env (keyShape_rule r) order
    (dpiRuleAddOne env hdl (ruleKey r) (ruleKeyR r) (ruleDir r) desc Desc.zero)
  split
  · exact any
  · exact any.trans (addAppRules_harmless env order apps _ _ _ _ _ shape).1

/-- How adding the rule `r` after the rules `rs` may change a handle: the frame is kept, the only
new exact entry of application 0 is the rule's own, for a rule no earlier rule covers, and it is
there when no earlier rule matches; new items are the rule's, the first of its bounds carrying its
descriptor, and its bounds are in its list. -/
structure Grows (env : PolicyEnv) (rs : List PolicyRuleCfg) (r : PolicyRuleCfg) (h h' : Hdl) :
    Prop where
  frame : h.Frame h'
  exact : ∃ new, h'.policyMap = h.policyMap ++ new ∧ ∀ e ∈ new, e.1.app = 0 →
    ruleKeyR r = none ∧ e = (ruleKey r, ruleDesc r (rs.length + 1)) ∧
      NoneBefore rs rs.length (covers · (ruleKey r) r.ingress)
  complete : ruleKeyR r = none →
    NoneBefore rs rs.length
      (matchesKey (isExternal env (ruleKey r) r.ingress) (ruleKey r) r.ingress) →
    (h'.exactLookup (ruleKey r)).isSome
  range : ∀ L, ∃ new, h'.rangePolicyMap L = h.rangePolicyMap L ++ new ∧
    (∀ x ∈ new, ItemOf r rs.length L x) ∧
    ∀ pre x post, new = pre ++ x :: post → x.keyL.app = 0 → ruleKeyR r ≠ none →
      (∃ a ∈ h.rangePolicyMap L ++ pre, a.span = x.span) ∨ x.desc = ruleDesc r (rs.length + 1)
  mainPresent : ruleKeyR r ≠ none → ∃ y ∈ h'.rangePolicyMap (ruleRangeKey r),
    y.span = (ruleKey r, ruleUpper r) ∧ y.desc.order ≤ rs.length + 1

section Step

variable {env : PolicyEnv} {rs : List PolicyRuleCfg} {r : PolicyRuleCfg} {hdl : Hdl}

theorem Grows.harmless {h h₁ h' : Hdl} (grows : Grows env rs r h h₁)
    (harmless : Harmless r rs.length h₁ h') : Grows env rs r h h' := by
  obtain ⟨new₁, grow₁, entry₁⟩ := grows.exact
  obtain ⟨new₂, grow₂, app₂⟩ := harmless.exact
  refine ⟨grows.frame.trans harmless.frame,
    ⟨new₁ ++ new₂, by rw [grow₂, grow₁, List.append_assoc], ?_⟩,
    fun point before => exactLookup_isSome_append grow₂ (grows.complete point before),
    fun L => ?_, fun range => ?_⟩
  · intro e mem app
    rcases List.mem_append.mp mem with m | m
    · exact entry₁ e m app
    · exact absurd app (app₂ e m)
  · obtain ⟨items₁, eq₁, item₁, first₁⟩ := grows.range L
    obtain ⟨items₂, eq₂, item₂⟩ := harmless.range L
    refine ⟨items₁ ++ items₂, by rw [eq₂, eq₁, List.append_assoc], fun x mem => ?_,
      fun pre x post eq app range => ?_⟩
    · rcases List.mem_append.mp mem with m | m
      exacts [item₁ x m, item₂ x m]
    · rcases append_eq_append_cons eq with ⟨post', eq'⟩ | ⟨pre', rfl, eq'⟩
      · exact first₁ pre x post' eq' app range
      · -- an item of a later pass: the rule's own bounds are already in the list
        obtain ⟨rfl, -, span⟩ := item₂ x (by simp [eq'])
        obtain ⟨y, mem, ySpan, -⟩ := grows.mainPresent range
        rw [eq₁] at mem
        refine .inl ⟨y, ?_, ySpan.trans (span app).symm⟩
        rw [← List.append_assoc]
        exact List.mem_append_left _ mem
  · obtain ⟨y, mem, span, order⟩ := grows.mainPresent range
    obtain ⟨items, eq, -⟩ := harmless.range (ruleRangeKey r)
    exact ⟨y, by rw [eq]; exact List.mem_append_left _ mem, span, order⟩

/-- The step lemma: a handle built from `rs` that grows by the rule `r` is built from
`rs ++ [r]`. -/
theorem Built.grows {h h' : Hdl} (built : Built env rs h) (grows : Grows env rs r h h') :
    Built env (rs ++ [r]) h' where
  flag := grows.frame.flag.trans built.flag
  exactSound := by
    obtain ⟨new, eq, entry⟩ := grows.exact
    intro e mem app
    rw [eq] at mem
    rcases List.mem_append.mp mem with old | m
    · obtain ⟨i, r', get, point, key, desc, before⟩ := built.exactSound e old app
      have lt := (List.getElem?_eq_some_iff.mp get).1
      exact ⟨i, r', by rw [getElem?_concat_of_lt lt]; exact get, point, key, desc,
        (NoneBefore.concat_iff lt.le).mpr before⟩
    · obtain ⟨point, rfl, before⟩ := entry e m app
      exact ⟨rs.length, r, List.getElem?_concat_length, point, rfl, rfl,
        (NoneBefore.concat_iff le_rfl).mpr before⟩
  exactComplete := by
    intro i r' get point before
    rcases getElem?_concat_cases get with ⟨lt, get⟩ | ⟨rfl, rfl⟩
    · obtain ⟨new, eq, -⟩ := grows.exact
      exact exactLookup_isSome_append eq
        (built.exactComplete i r' get point ((NoneBefore.concat_iff lt.le).mp before))
    · exact grows.complete point ((NoneBefore.concat_iff le_rfl).mp before)
  rangeSound := by
    intro L flag x mem app
    obtain ⟨new, eq, item, -⟩ := grows.range L
    rw [eq] at mem
    rcases List.mem_append.mp mem with old | m
    · obtain ⟨i, r', get, list, span, order⟩ := built.rangeSound L flag x old app
      exact ⟨i, r', by rw [getElem?_concat_of_lt (List.getElem?_eq_some_iff.mp get).1]; exact get,
        list, span, order⟩
    · obtain ⟨rfl, order, span⟩ := item x m
      exact ⟨rs.length, r, List.getElem?_concat_length, rfl, span app, order⟩
  rangeBound := by
    intro L flag x mem
    obtain ⟨new, eq, item, -⟩ := grows.range L
    rw [eq] at mem
    simp only [List.length_append, List.length_singleton]
    rcases List.mem_append.mp mem with old | m
    · have := built.rangeBound L flag x old
      omega
    · have := (item x m).2.1
      omega
  rangeSorted := by
    intro L flag
    obtain ⟨new, eq, item, -⟩ := grows.range L
    rw [eq, List.pairwise_append]
    refine ⟨built.rangeSorted L flag, List.pairwise_of_forall_mem_list fun a ma b mb => ?_,
      fun a old b m => ?_⟩
    · -- the new items all carry the rule's order
      rw [(item a ma).2.1, (item b mb).2.1]
    · have := built.rangeBound L flag a old
      have := (item b m).2.1
      omega
  mainFirst := by
    intro L pre x post flag eq app r' get range
    obtain ⟨new, eqL, item, first⟩ := grows.range L
    rw [eqL] at eq
    rcases append_eq_append_cons eq with ⟨post', old⟩ | ⟨pre', rfl, m⟩
    · -- an item of the old list belongs to a rule of `rs`
      obtain ⟨i, r'', get', -, -, order⟩ :=
        built.rangeSound L flag x (by rw [old]; simp) app
      have lt := (List.getElem?_eq_some_iff.mp get').1
      rw [order, Nat.add_sub_cancel, getElem?_concat_of_lt lt] at get
      exact built.mainFirst L pre x post' flag old app r'
        (by rw [order, Nat.add_sub_cancel]; exact get) range
    · obtain ⟨rfl, order, -⟩ := item x (by rw [m]; simp)
      rw [order, Nat.add_sub_cancel, List.getElem?_concat_length] at get
      cases get
      rcases first pre' x post m app range with found | desc
      · exact .inl found
      · exact .inr (by rw [order, desc])
  mainPresent := by
    intro i r' get range
    rcases getElem?_concat_cases get with ⟨lt, get⟩ | ⟨rfl, rfl⟩
    · obtain ⟨y, mem, span, order⟩ := built.mainPresent i r' get range
      obtain ⟨new, eq, -, -⟩ := grows.range (ruleRangeKey r')
      exact ⟨y, by rw [eq]; exact List.mem_append_left _ mem, span, by omega⟩
    · exact grows.mainPresent range
  noDir := by
    intro L flag x mem
    rw [grows.frame.noDir L flag] at mem
    exact built.noDir L flag x mem

/-- The first add of a single-point rule: the insertion lookup, with a `NULL` packet, finds a rule
exactly when an earlier rule matches, and the entry goes in otherwise. -/
theorem grows_first_point (built : Built env rs hdl) (ok : ∀ r' ∈ rs, RuleCfgOk r')
    (short : rs.length < 0xffffffff) (point : ruleKeyR r = none)
    (reached : consulted env hdl (ruleKey r) r.ingress false = true)
    (safe : LookupSafe env rs (ruleKey r) r.ingress) :
    Grows env rs r hdl (dpiRuleAddOne env hdl (ruleKey r) (ruleKeyR r) (ruleDir r)
      (ruleDesc r (rs.length + 1)) Desc.zero).hdl := by
  have verdict := lookupByKey_verdict built ok short rfl safe reached Desc.zero
  -- the id the lookup finds is that of the first matching rule, 0 when there is none
  have foundId : (dpiPolicyLookupByKey env (some hdl) (ruleKey r).sip (ruleKey r).dip
      (ruleKey r).dport (ruleKey r).proto (ruleKey r).app r.ingress Desc.zero false).id = 0 ↔
      firstMatch env rs (ruleKey r) r.ingress = none := by
    cases hm : firstMatch env rs (ruleKey r) r.ingress with
    | none =>
      rw [hm] at verdict
      have id : (dpiPolicyLookupByKey env (some hdl) (ruleKey r).sip (ruleKey r).dip
          (ruleKey r).dport (ruleKey r).proto (ruleKey r).app r.ingress Desc.zero false).id =
          (noDirResult hdl (ruleKey r)).id := congrArg Prod.fst verdict
      simp [id, (noDirResult_id_order built _).1]
    | some r' =>
      rw [hm] at verdict
      have pos := (ok r' (List.mem_of_find?_eq_some hm)).1
      have id : (dpiPolicyLookupByKey env (some hdl) (ruleKey r).sip (ruleKey r).dip
          (ruleKey r).dport (ruleKey r).proto (ruleKey r).app r.ingress Desc.zero false).id =
          r'.id := congrArg Prod.fst verdict
      simp only [reduceCtorEq, iff_false]
      omega
  simp only [point, dpiRuleAddOne, ruleDir_ingress]
  split
  · -- a rule is found: the handle is left as it is
    rename_i found
    refine ⟨Hdl.Frame.refl _, ⟨[], by simp, by simp⟩, fun _ before => ?_,
      fun _ => ⟨[], by simp, by simp, by simp⟩, fun range => absurd point range⟩
    exact absurd (foundId.mpr (find?_none_of_noneBefore before)) found
  · -- nothing is found: the exact entry goes in
    rename_i found
    have none : firstMatch env rs (ruleKey r) r.ingress = none :=
      foundId.mp (by simpa using found)
    refine ⟨⟨rfl, rfl, rfl, fun _ _ => rfl⟩, ⟨[(ruleKey r, ruleDesc r (rs.length + 1))], rfl, ?_⟩,
      fun _ _ => ?_, fun _ => ⟨[], by simp, by simp, by simp⟩, fun range => absurd point range⟩
    · intro e mem _
      rw [List.mem_singleton] at mem
      exact ⟨point, mem, (noneBefore_of_find?_none none).mono fun _ => matchesKey_of_covers⟩
    · rw [exactLookup_addExact]
      cases hdl.exactLookup (ruleKey r) <;> simp

/-- The first add of a range rule: the item goes in unless one with the same bounds is there. -/
theorem grows_first_range (built : Built env rs hdl) (range : ruleKeyR r = some (ruleUpper r)) :
    Grows env rs r hdl (dpiRuleAddOne env hdl (ruleKey r) (ruleKeyR r) (ruleDir r)
      (ruleDesc r (rs.length + 1)) Desc.zero).hdl := by
  have hkey : getRangeKey (ruleKey r) (ruleUpper r) (ruleDir r) = some (ruleRangeKey r) :=
    getRangeKey_ruleDir r rfl
  have notPoint : ruleKeyR r ≠ none := by simp [range]
  simp only [range, dpiRuleAddOne]
  rcases dpiRangeRuleAdd_cases hdl (ruleDesc r (rs.length + 1)) Desc.zero hkey with
    ⟨p, mem, pL, pH, eq⟩ | eq <;> rw [eq]
  · -- an item with the same bounds is there already
    refine ⟨Hdl.Frame.refl _, ⟨[], by simp, by simp⟩, fun point => absurd point notPoint,
      fun _ => ⟨[], by simp, by simp, by simp⟩, fun _ => ⟨p, mem, ?_, ?_⟩⟩
    · rw [RangeItem.span, pL, pH]
      rfl
    · have := built.rangeBound _ (ruleRangeKey_flag r) p mem
      omega
  · -- the rule's own item is appended
    let main : RangeItem := ⟨ruleDesc r (rs.length + 1), ruleKey r, ruleUpper r⟩
    refine ⟨⟨rfl, rfl, rfl, fun L flag => setRange_other _ _ ?_⟩, ⟨[], by simp, by simp⟩,
      fun point => absurd point notPoint, fun L => ?_, fun _ => ⟨main, ?_, rfl, le_rfl⟩⟩
    · rintro rfl
      exact ruleRangeKey_flag r flag
    · by_cases same : L = ruleRangeKey r
      · subst same
        refine ⟨[main], setRange_same .., by simpa using ⟨rfl, rfl, fun _ => rfl⟩, ?_⟩
        intro pre x post eq _ _
        -- the one new item is the rule's own
        cases pre with
        | nil =>
          obtain ⟨rfl, -⟩ := List.cons.inj eq
          exact .inr rfl
        | cons a pre => simp at eq
      · exact ⟨[], by simp [setRange_other _ _ same], by simp, by simp⟩
    · rw [setRange_same]
      exact List.mem_append_right _ (List.mem_singleton_self _)

theorem cfgRule_grows (built : Built env rs hdl) (ok : ∀ r' ∈ rs, RuleCfgOk r') (okR : RuleCfgOk r)
    (short : rs.length < 0xffffffff)
    (reached : ruleKeyR r = none → consulted env hdl (ruleKey r) r.ingress false = true)
    (safe : ruleKeyR r = none → LookupSafe env rs (ruleKey r) r.ingress) :
    Grows env rs r hdl (cfgRule env hdl rs.length r).1 := by
  obtain ⟨-, proto, fqdn, -, -⟩ := okR
  rw [cfgRule_of_plain env hdl rs.length fqdn proto]
  have first : Grows env rs r hdl (dpiRuleAddOne env hdl (ruleKey r) (ruleKeyR r) (ruleDir r)
      (ruleDesc r (rs.length + 1)) Desc.zero).hdl := by
    rcases ruleKeyR_eq r with point | range
    · exact grows_first_point built ok short point (reached point) (safe point)
    · exact grows_first_range built range
  exact first.harmless (dpiRuleAdd_harmless env hdl r rfl r.appRules)

end Step

/-! ### The rule loop -/

theorem dpiRuleAddOne_frame (env : PolicyEnv) (hdl : Hdl) (r : PolicyRuleCfg) (desc existDesc : Desc) :
    hdl.Frame (dpiRuleAddOne env hdl (ruleKey r) (ruleKeyR r) (ruleDir r) desc existDesc).hdl := by
  rcases ruleKeyR_eq r with point | range
  · simp only [point, dpiRuleAddOne]
    split
    · exact Hdl.Frame.refl hdl
    · exact Hdl.Frame.addExact hdl _ _
  · simp only [range, dpiRuleAddOne]
    have hkey := getRangeKey_ruleDir r (show (ruleKey r).proto = (ruleUpper r).proto from rfl)
    rcases dpiRangeRuleAdd_cases hdl desc existDesc hkey with ⟨p, -, -, -, eq⟩ | eq <;> rw [eq]
    · exact Hdl.Frame.refl hdl
    · exact Hdl.Frame.setRange hdl (rangeKeyOf_flag _ _) _

theorem cfgRule_frame (env : PolicyEnv) (hdl : Hdl) (order : Nat) {r : PolicyRuleCfg}
    (okR : RuleCfgOk r) :
    hdl.Frame (cfgRule env hdl order r).1 ∧ (cfgRule env hdl order r).2 = order + 1 := by
  obtain ⟨-, proto, fqdn, -, -⟩ := okR
  rw [cfgRule_of_plain env hdl order fqdn proto]
  have harmless := dpiRuleAdd_harmless env hdl r
    (show (ruleDesc r (order + 1)).order = order + 1 from rfl) r.appRules
  exact ⟨(dpiRuleAddOne_frame env hdl r _ _).trans harmless.frame, rfl⟩

theorem cfgRules_frame (env : PolicyEnv) (rs : List PolicyRuleCfg) (ok : ∀ r ∈ rs, RuleCfgOk r) :
    ∀ (hdl : Hdl) (order : Nat),
      hdl.Frame (cfgRules env hdl order rs).1 ∧ (cfgRules env hdl order rs).2 = order + rs.length := by
  induction rs with
  | nil => exact fun hdl order => ⟨Hdl.Frame.refl hdl, rfl⟩
  | cons r rest ih =>
    intro hdl order
    obtain ⟨frame, count⟩ := cfgRule_frame env hdl order (ok r (by simp))
    obtain ⟨frame', count'⟩ := ih (fun r' m => ok r' (by simp [m])) (cfgRule env hdl order r).1
      (cfgRule env hdl order r).2
    rw [cfgRules_cons]
    refine ⟨frame.trans frame', ?_⟩
    rw [count', count, List.length_cons]
    omega

theorem Built.empty (env : PolicyEnv) {h : Hdl} (map : h.policyMap = [])
    (range : ∀ L, h.rangePolicyMap L = []) (flag : h.flag = 0) : Built env [] h where
  flag := flag
  exactSound := by simp [map]
  exactComplete := by simp
  rangeSound := by simp [range]
  rangeBound := by simp [range]
  rangeSorted := by simp [range]
  mainFirst := by simp [range]
  mainPresent := by simp
  noDir := by simp [range]

theorem LookupSafe.mono {env : PolicyEnv} {rs rs' : List PolicyRuleCfg} {k : RuleKey} {d : Bool}
    (sub : rs ⊆ rs') (safe : LookupSafe env rs' k d) : LookupSafe env rs k d :=
  ⟨fun r mem => safe.1 r (sub mem), fun ext r mem => safe.2 ext r (sub mem)⟩

/-- The run lemma: the rule loop of `dpi_policy_cfg` over rules of the first-match kind builds
a handle from them. -/
theorem cfgRules_built (env : PolicyEnv) {h0 : Hdl} (init : Built env [] h0) :
    ∀ rs : List PolicyRuleCfg, (∀ r ∈ rs, RuleCfgOk r) → rs.length < 0xffffffff →
      (∀ r ∈ rs, ruleKeyR r = none → consulted env h0 (ruleKey r) r.ingress false = true) →
      (∀ r ∈ rs, ruleKeyR r = none → LookupSafe env rs (ruleKey r) r.ingress) →
      Built env rs (cfgRules env h0 0 rs).1 := by
  intro rs
  induction rs using List.reverseRecOn with
  | nil => exact fun _ _ _ _ => init
  | append_singleton rs r ih =>
    intro ok short reached safe
    have sub : rs ⊆ rs ++ [r] := List.subset_append_left rs [r]
    have okRs : ∀ r' ∈ rs, RuleCfgOk r' := fun r' m => ok r' (sub m)
    have built := ih okRs (by simp at short; omega) (fun r' m => reached r' (sub m))
      (fun r' m point => (safe r' (sub m) point).mono sub)
    obtain ⟨frame, order⟩ := cfgRules_frame env rs okRs h0 0
    rw [cfgRules_append, order, Nat.zero_add, cfgRules_singleton]
    -- the rule's own pass, on the handle built so far
    have inR : r ∈ rs ++ [r] := by simp
    exact built.grows (cfgRule_grows built okRs (ok r inR) (by simp at short; omega)
      (fun point => (consulted_frame frame _ _ _).trans (reached r inR point))
      (fun point => (safe r inR point).mono sub))

end MicroSegment.Dp.Policy
