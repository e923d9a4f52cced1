import MicroSegment.Dp.PolicyInstall

/-!
# Dataplane policy table: the exact path and the range path of a single-point rule

`dpi_rule_add` puts a single-point rule in the exact map when its upper key is `NULL` and in its
range list when the upper key is the lower one. The two differ on insertion: the exact path adds
an entry only when a full lookup of its key finds no rule, the range path only skips an item with
the same bounds. Rules of one key installed one after another on a handle where nothing answers
that key (`Fresh`) leave handles whose raw lookups agree on every key of the rules' direction,
every application included, also when a later rule meets an earlier `CHECK_APP` rule
(`dpiRuleAdd_paths_agree`). Lookups of the other direction, and handles where an earlier rule
answers the key, tell the paths apart (`dpiRuleAdd_paths_differ`).

The proof follows both paths pass by pass. `ownAnswer` is what the exact map and the rule's list
answer; every pass of either path adds to it an answer for one set of the rule's keys
(`ownAnswer_addExact`, `ownAnswer_dpiRangeRuleAdd`), and `PathsAgree` says the two answers agree.
Between rules, `PointFirst` records that the range path answers the rule's key with the item the
next rule's first add finds.
-/

namespace MicroSegment.Dp.Policy

/-- An exact entry of the rule with lower key `keyL`: its key at some application, and the
descriptor of a rule. -/
def OwnEntry (keyL : RuleKey) (e : RuleKey × Desc) : Prop :=
  (∃ a, e.1 = { keyL with app := a }) ∧ 0 < e.2.id

/-- A range item of the rule with lower key `keyL`: both bounds its key at some application. -/
def OwnItem (keyL : RuleKey) (item : RangeItem) : Prop :=
  (∃ a, item.keyL = { keyL with app := a }) ∧ (∃ b, item.keyH = { keyL with app := b }) ∧
    0 < item.desc.id

/-- `hX` is `h` with entries of the rule appended to the exact map and items of the rule to its
list `L`. -/
structure OwnExt (keyL : RuleKey) (L : RangeKey) (h hX : Hdl) : Prop where
  defAction : hX.defAction = h.defAction
  applyDir : hX.applyDir = h.applyDir
  flag : hX.flag = h.flag
  exact : ∃ new, hX.policyMap = h.policyMap ++ new ∧ ∀ e ∈ new, OwnEntry keyL e
  range : ∀ L', ∃ new, hX.rangePolicyMap L' = h.rangePolicyMap L' ++ new ∧
    ∀ x ∈ new, L' = L ∧ OwnItem keyL x

theorem OwnExt.refl (keyL : RuleKey) (L : RangeKey) (h : Hdl) : OwnExt keyL L h h :=
  ⟨rfl, rfl, rfl, ⟨[], by simp, by simp⟩, fun _ => ⟨[], by simp, by simp⟩⟩

theorem OwnExt.setRange {keyL : RuleKey} {L : RangeKey} {h hX : Hdl} (own : OwnExt keyL L h hX)
    {i : RangeItem} (item : OwnItem keyL i) :
    OwnExt keyL L h (hX.setRange L (hX.rangePolicyMap L ++ [i])) := by
  obtain ⟨new, eq, entries⟩ := own.exact
  refine ⟨own.defAction, own.applyDir, own.flag, ⟨new, eq, entries⟩, fun L' => ?_⟩
  obtain ⟨items, eqL, itemsOwn⟩ := own.range L'
  by_cases same : L' = L
  · subst same
    refine ⟨items ++ [i], by rw [setRange_same, eqL, List.append_assoc], fun x mem => ?_⟩
    rcases List.mem_append.mp mem with m | m
    · exact itemsOwn x m
    · exact ⟨rfl, (List.mem_singleton.mp m) ▸ item⟩
  · exact ⟨items, by rw [setRange_other _ _ same, eqL], itemsOwn⟩

theorem OwnExt.addExact {keyL : RuleKey} {L : RangeKey} {h hX : Hdl} (own : OwnExt keyL L h hX)
    {e : RuleKey × Desc} (entry : OwnEntry keyL e) : OwnExt keyL L h (hX.addExact e.1 e.2) := by
  obtain ⟨new, eq, entries⟩ := own.exact
  refine ⟨own.defAction, own.applyDir, own.flag, ⟨new ++ [e], ?_, fun x mem => ?_⟩, own.range⟩
  · simp [Hdl.addExact, eq]
  · rcases List.mem_append.mp mem with m | m
    · exact entries x m
    · exact (List.mem_singleton.mp m) ▸ entry

theorem OwnItem.holds {keyL : RuleKey} {i : RangeItem} (item : OwnItem keyL i) {k : RuleKey}
    (holds : ruleKeyInRange i k = true) :
    k.sip = keyL.sip ∧ k.dip = keyL.dip ∧ k.dport = keyL.dport := by
  obtain ⟨⟨a, lower⟩, ⟨b, upper⟩, -⟩ := item
  simp only [ruleKeyInRange, Bool.and_eq_true, isXInRange_iff, lower, upper] at holds
  omega

/-! ### What a handle answers for the rule's keys -/

def ownAnswer (hX : Hdl) (L : RangeKey) (k : RuleKey) : Option Desc :=
  (hX.exactLookup k).or ((dpiRangeRuleMatch (hX.rangePolicyMap L) k).map RangeItem.desc)

theorem lookupRaw_ownAnswer (hX : Hdl) {k : RuleKey} {isIngress : Bool}
    {L : RangeKey} (list : rangeKeyOf k isIngress = L) :
    dpiPolicyLookupByKeyRaw hX k isIngress = (ownAnswer hX L k).getD (noDirResult hX k) := by
  rw [lookupRaw_eq, ownAnswer, list]
  cases hX.exactLookup k with
  | some d => rfl
  | none => cases dpiRangeRuleMatch (hX.rangePolicyMap L) k <;> rfl

/-- Adding an exact entry for a key the handle does not answer. -/
theorem ownAnswer_addExact {hX : Hdl} {L : RangeKey} {k0 : RuleKey} (d : Desc)
    (unanswered : ownAnswer hX L k0 = none) (k : RuleKey) :
    ownAnswer (hX.addExact k0 d) L k = (ownAnswer hX L k).or (if k = k0 then some d else none) := by
  obtain ⟨noExact, noItem⟩ := Option.or_eq_none_iff.mp unanswered
  simp only [ownAnswer, exactLookup_addExact, addExact_range]
  by_cases same : k = k0
  · subst same
    simp [noExact, noItem]
  · cases hX.exactLookup k with
    | some found => simp
    | none => simp [Ne.symm same, same]

theorem ownAnswer_setRange (hX : Hdl) (L : RangeKey) (i : RangeItem) (k : RuleKey) :
    ownAnswer (hX.setRange L (hX.rangePolicyMap L ++ [i])) L k =
      (ownAnswer hX L k).or (if ruleKeyInRange i k then some i.desc else none) := by
  simp only [ownAnswer, Hdl.exactLookup, setRange_policyMap, setRange_same, dpiRangeRuleMatch_append]
  cases hi : ruleKeyInRange i k <;>
    simp [dpiRangeRuleMatch, hi]

/-- `dpi_range_rule_add` answers for the new item's keys whether it appends the item or finds
one with the same bounds, which answers for the same keys. -/
theorem ownAnswer_dpiRangeRuleAdd (hX : Hdl) {kl kh : RuleKey} {dir : RuleDir} {L : RangeKey}
    (d e : Desc) (list : getRangeKey kl kh dir = some L) (k : RuleKey) :
    ownAnswer (dpiRangeRuleAdd hX kl kh dir d e).hdl L k =
      (ownAnswer hX L k).or (if ruleKeyInRange ⟨d, kl, kh⟩ k then some d else none) := by
  rcases dpiRangeRuleAdd_cases hX d e list with ⟨p, mem, lower, upper, eq⟩ | eq
  · rw [eq]
    cases hi : ruleKeyInRange ⟨d, kl, kh⟩ k with
    | false => simp
    | true =>
      -- the item with the same bounds holds the key, so the list already answers it
      have holds : ruleKeyInRange p k = true := by
        simpa [ruleKeyInRange, lower, upper] using hi
      have found : dpiRangeRuleMatch (hX.rangePolicyMap L) k ≠ none := fun none =>
        dpiRangeRuleMatch_eq_none.mp none p mem holds
      obtain ⟨x, hx⟩ := Option.ne_none_iff_exists'.mp found
      cases hX.exactLookup k <;> simp [ownAnswer, hx]
  · rw [eq]
    exact ownAnswer_setRange hX L _ k

/-- Nothing in `h` answers the rule's key in the rule's direction, at any application, and the
full lookups the exact path makes on insertion reach the table and meet no other rule, also with
the remote address cleared. -/
structure Fresh (env : PolicyEnv) (h : Hdl) (keyL : RuleKey) (isIngress : Bool) : Prop where
  flag : h.flag = 0
  noAnswer : ∀ x, ownAnswer h (rangeKeyOf keyL isIngress) { keyL with app := x } = none
  noDir : ∀ x, (noDirResult h { keyL with app := x }).id = 0
  remote : isExternal env keyL isIngress = true → remoteOf keyL isIngress ≠ 0 →
    ∀ x, (dpiPolicyLookupByKeyRaw h (remoteZero { keyL with app := x } isIngress) isIngress).id = 0
  reached : consulted env h keyL isIngress false = true

section Own

variable {env : PolicyEnv} {keyL : RuleKey} {isIngress : Bool} {h hX : Hdl}

theorem rangeKeyOf_proto (k : RuleKey) (d : Bool) : (rangeKeyOf k d).proto = k.proto := by
  cases d <;> rfl

theorem eq_withApp_of_holds {keyL k : RuleKey} {i : RangeItem} (item : OwnItem keyL i)
    (holds : ruleKeyInRange i k = true) (proto : k.proto = keyL.proto) :
    k = { keyL with app := k.app } := by
  obtain ⟨sip, dip, dport⟩ := item.holds holds
  cases k
  simp_all

theorem OwnExt.noDirResult_eq (own : OwnExt keyL (rangeKeyOf keyL isIngress) h hX) (k : RuleKey) :
    noDirResult hX k = noDirResult h k := by
  obtain ⟨items, eq, itemsOwn⟩ := own.range (noDirKey k)
  have empty : items = [] := by
    cases items with
    | nil => rfl
    | cons x _ =>
      have := congrArg RangeKey.flag (itemsOwn x (by simp)).1
      exact absurd this.symm (by simpa [noDirKey] using rangeKeyOf_flag keyL isIngress)
  simp [noDirResult, eq, empty, noMatchDesc, own.defAction]

theorem OwnExt.ownAnswer_pos {L : RangeKey} (own : OwnExt keyL L h hX) {k : RuleKey} {d : Desc}
    (unanswered : ownAnswer h L k = none) (answer : ownAnswer hX L k = some d) : 0 < d.id := by
  obtain ⟨noExact, noItem⟩ := Option.or_eq_none_iff.mp unanswered
  obtain ⟨new, eq, entries⟩ := own.exact
  obtain ⟨items, eqL, itemsOwn⟩ := own.range L
  simp only [ownAnswer, exactLookup_append k eq, noExact, Option.none_or, eqL,
    dpiRangeRuleMatch_append, Option.map_eq_none_iff.mp noItem] at answer
  cases found : new.find? (fun entry => decide (entry.1 = k)) with
  | some entry =>
    simp only [found, Option.map_some, Option.some_or, Option.some.injEq] at answer
    exact answer ▸ (entries entry (List.mem_of_find?_eq_some found)).2
  | none =>
    simp only [found, Option.map_none, Option.none_or, Option.map_eq_some_iff] at answer
    obtain ⟨item, matched, rfl⟩ := answer
    exact (itemsOwn item (dpiRangeRuleMatch_some matched).2).2.2.2

theorem OwnExt.lookupRaw_untouched (own : OwnExt keyL (rangeKeyOf keyL isIngress) h hX)
    {k : RuleKey} (notOwn : ∀ x, k ≠ { keyL with app := x }) (d : Bool) :
    dpiPolicyLookupByKeyRaw hX k d = dpiPolicyLookupByKeyRaw h k d := by
  obtain ⟨new, eq, entries⟩ := own.exact
  have exact : hX.exactLookup k = h.exactLookup k := by
    have none : new.find? (fun entry => decide (entry.1 = k)) = none :=
      List.find?_eq_none.mpr fun entry mem same => by
        obtain ⟨⟨a, key⟩, -⟩ := entries entry mem
        exact notOwn a ((of_decide_eq_true same).symm.trans key)
    rw [exactLookup_append k eq, none, Option.map_none, Option.or_none]
  obtain ⟨items, eqL, itemsOwn⟩ := own.range (rangeKeyOf k d)
  have range : dpiRangeRuleMatch items k = none :=
    dpiRangeRuleMatch_eq_none.mpr fun item mem holds => by
      obtain ⟨list, itemOwn⟩ := itemsOwn item mem
      have proto : k.proto = keyL.proto := by
        simpa [rangeKeyOf_proto] using congrArg RangeKey.proto list
      exact notOwn k.app (eq_withApp_of_holds itemOwn holds proto)
  rw [lookupRaw_eq, lookupRaw_eq, exact, eqL, dpiRangeRuleMatch_append, range, Option.or_none,
    own.noDirResult_eq]

theorem remoteZero_of_zero {k : RuleKey} {d : Bool} (zero : remoteOf k d = 0) :
    remoteZero k d = k := by
  cases d <;> cases k <;> simp_all [remoteOf, remoteZero]

theorem remoteZero_ne_withApp {keyL : RuleKey} {d : Bool} (remote : remoteOf keyL d ≠ 0)
    (x y : Nat) : remoteZero { keyL with app := x } d ≠ { keyL with app := y } := by
  intro same
  have := congrArg (fun k => remoteOf k d) same
  cases d <;> simp_all [remoteOf, remoteZero]

theorem insertLookup_verdict (own : OwnExt keyL (rangeKeyOf keyL isIngress) h hX)
    (fresh : Fresh env h keyL isIngress) (x : Nat) (e : Desc) :
    (dpiPolicyLookupByKey env (some hX) keyL.sip keyL.dip keyL.dport keyL.proto x isIngress e
        false).verdict = (dpiPolicyLookupByKeyRaw hX { keyL with app := x } isIngress).verdict := by
  have reached : consulted env hX { keyL with app := x } isIngress false = true := by
    rw [consulted_congr own.applyDir own.defAction]
    exact fresh.reached
  have lookup := dpiPolicyLookupByKey_consulted e reached
  simp only at lookup
  rw [lookup, tableLookup_of_flag env (own.flag.trans fresh.flag)]
  cases internal : env.dpiIsIp4Internal (remoteOf { keyL with app := x } isIngress) with
  | true => rfl
  | false =>
    simp only [withPeer, Bool.false_eq_true, if_false]
    by_cases zero : remoteOf keyL isIngress = 0
    · rw [remoteZero_of_zero (k := { keyL with app := x }) zero,
        policyDescMerge_of_not_lt (.inr le_rfl)]
      rfl
    · -- the key with the remote address cleared is none of the rule's keys
      have untouched := own.lookupRaw_untouched (remoteZero_ne_withApp zero x) isIngress
      have external : isExternal env keyL isIngress = true := by
        simp only [isExternal, Bool.not_eq_true']
        exact internal
      rw [policyDescMerge_of_not_lt (.inl (untouched ▸ fresh.remote external zero x))]
      rfl

theorem insertLookup_zero_iff (own : OwnExt keyL (rangeKeyOf keyL isIngress) h hX)
    (fresh : Fresh env h keyL isIngress) (x : Nat) (e : Desc) :
    (dpiPolicyLookupByKey env (some hX) keyL.sip keyL.dip keyL.dport keyL.proto x isIngress e
        false).id = 0 ↔ ownAnswer hX (rangeKeyOf keyL isIngress) { keyL with app := x } = none := by
  rw [show ∀ d : Desc, d.id = d.verdict.1 from fun _ => rfl, insertLookup_verdict own fresh x e,
    lookupRaw_ownAnswer hX (rangeKeyOf_app keyL x isIngress), own.noDirResult_eq]
  cases answer : ownAnswer hX (rangeKeyOf keyL isIngress) { keyL with app := x } with
  | none => simpa [Desc.verdict] using fresh.noDir x
  | some d => simpa [Desc.verdict] using (own.ownAnswer_pos (fresh.noAnswer x) answer).ne'

end Own

section Step

variable {env : PolicyEnv} {keyL : RuleKey} {dir : RuleDir} {h hX : Hdl}

theorem getRangeKey_withApp (directed : dir ≠ .none) (a b : Nat) :
    getRangeKey { keyL with app := a } { keyL with app := b } dir =
      some (rangeKeyOf keyL (decide (dir = .ingress))) := by
  cases dir with
  | none => exact absurd rfl directed
  | ingress => simp [getRangeKey, rangeKeyOf]
  | egress => simp [getRangeKey, rangeKeyOf]

theorem withApp_eq_iff (keyL : RuleKey) (x a : Nat) :
    { keyL with app := x } = { keyL with app := a } ↔ x = a := by
  simp

theorem ruleKeyInRange_point_withApp (d : Desc) (keyL : RuleKey) (x a : Nat) :
    ruleKeyInRange ⟨d, { keyL with app := a }, { keyL with app := a }⟩ { keyL with app := x } =
      decide (x = a) := by
  rw [Bool.eq_iff_iff]
  simp only [ruleKeyInRange, Bool.and_eq_true, isXInRange_iff, decide_eq_true_eq]
  omega

theorem dpiRuleAddOne_exact_hdl (own : OwnExt keyL (rangeKeyOf keyL (decide (dir = .ingress))) h hX)
    (fresh : Fresh env h keyL (decide (dir = .ingress))) (x : Nat) (d e : Desc) :
    (dpiRuleAddOne env hX { keyL with app := x } none dir d e).hdl =
      if ownAnswer hX (rangeKeyOf keyL (decide (dir = .ingress))) { keyL with app := x } = none
      then hX.addExact { keyL with app := x } d else hX := by
  have iff := insertLookup_zero_iff own fresh x e
  simp only [dpiRuleAddOne]
  by_cases unanswered :
      ownAnswer hX (rangeKeyOf keyL (decide (dir = .ingress))) { keyL with app := x } = none
  · simp [iff.mpr unanswered, unanswered]
  · simp [mt iff.mp unanswered, unanswered]

theorem dpiRuleAddOne_exact_ret (own : OwnExt keyL (rangeKeyOf keyL (decide (dir = .ingress))) h hX)
    (fresh : Fresh env h keyL (decide (dir = .ingress))) {x : Nat} (d e : Desc)
    (unanswered : ownAnswer hX (rangeKeyOf keyL (decide (dir = .ingress))) { keyL with app := x } = none) :
    (dpiRuleAddOne env hX { keyL with app := x } none dir d e).ret = 1 := by
  simp [dpiRuleAddOne, (insertLookup_zero_iff own fresh x e).mpr unanswered]

theorem ownAnswer_exactAdd (own : OwnExt keyL (rangeKeyOf keyL (decide (dir = .ingress))) h hX)
    (fresh : Fresh env h keyL (decide (dir = .ingress))) (x : Nat) (d e : Desc) (k : RuleKey) :
    ownAnswer (dpiRuleAddOne env hX { keyL with app := x } none dir d e).hdl
        (rangeKeyOf keyL (decide (dir = .ingress))) k =
      (ownAnswer hX (rangeKeyOf keyL (decide (dir = .ingress))) k).or
        (if k = { keyL with app := x } then some d else none) := by
  rw [dpiRuleAddOne_exact_hdl own fresh x d e]
  split
  · rename_i unanswered
    exact ownAnswer_addExact d unanswered k
  · rename_i answered
    by_cases same : k = { keyL with app := x }
    · obtain ⟨found, hfound⟩ := Option.ne_none_iff_exists'.mp answered
      simp [same, hfound]
    · simp [same]

theorem OwnExt.exactAdd (own : OwnExt keyL (rangeKeyOf keyL (decide (dir = .ingress))) h hX)
    (fresh : Fresh env h keyL (decide (dir = .ingress))) (x : Nat) {d : Desc} (pos : 0 < d.id)
    (e : Desc) :
    OwnExt keyL (rangeKeyOf keyL (decide (dir = .ingress))) h
      (dpiRuleAddOne env hX { keyL with app := x } none dir d e).hdl := by
  rw [dpiRuleAddOne_exact_hdl own fresh x d e]
  split
  · exact own.addExact (e := ({ keyL with app := x }, d)) ⟨⟨x, rfl⟩, pos⟩
  · exact own

theorem OwnExt.rangeAdd (own : OwnExt keyL (rangeKeyOf keyL (decide (dir = .ingress))) h hX)
    (directed : dir ≠ .none) (a b : Nat) {d : Desc} (pos : 0 < d.id) (e : Desc) :
    OwnExt keyL (rangeKeyOf keyL (decide (dir = .ingress))) h
      (dpiRangeRuleAdd hX { keyL with app := a } { keyL with app := b } dir d e).hdl := by
  rcases dpiRangeRuleAdd_cases hX d e (getRangeKey_withApp directed a b) with
    ⟨p, -, -, -, eq⟩ | eq
  · rw [eq]
    exact own
  · rw [eq]
    exact own.setRange ⟨⟨a, rfl⟩, ⟨b, rfl⟩, pos⟩

theorem dpiAddAppRule_none_point {hdl : Hdl} {kl : RuleKey} {ar : AppRule} (app : ar.app ≠ 0)
    (D e : Desc) :
    (dpiAddAppRule env hdl kl none ar dir D e).result =
      dpiRuleAddOne env hdl { kl with app := ar.app } none dir (appDesc ar D) e := by
  simp [dpiAddAppRule, app]

theorem dpiAddAppRule_none_any {hdl : Hdl} {kl : RuleKey} {ar : AppRule} (app : ar.app = 0)
    (D e : Desc) :
    (dpiAddAppRule env hdl kl none ar dir D e).result =
      dpiRangeRuleAdd hdl { kl with app := 0 } { kl with app := 0xffffffff } dir (appDesc ar D) e := by
  simp [dpiAddAppRule, dpiRuleAddOne, app]

theorem dpiAddAppRule_some (hdl : Hdl) (kl kh : RuleKey) (ar : AppRule) (D e : Desc) :
    (dpiAddAppRule env hdl kl (some kh) ar dir D e).result =
      dpiRangeRuleAdd hdl { kl with app := ar.app }
        { kh with app := if ar.app ≠ 0 then ar.app else 0xffffffff } dir (appDesc ar D) e := rfl

end Step

/-! ### The two paths pass by pass -/

/-- The handles of the two paths after the same passes: both grew from `h` by entries and items
of the rule, and they answer the rule's keys alike. -/
structure PathsAgree (keyL : RuleKey) (isIngress : Bool) (h hE hR : Hdl) : Prop where
  ownE : OwnExt keyL (rangeKeyOf keyL isIngress) h hE
  ownR : OwnExt keyL (rangeKeyOf keyL isIngress) h hR
  agree : ∀ x, ownAnswer hE (rangeKeyOf keyL isIngress) { keyL with app := x } =
    ownAnswer hR (rangeKeyOf keyL isIngress) { keyL with app := x }

section Paths

variable {env : PolicyEnv} {keyL : RuleKey} {isIngress : Bool} {h hE hR : Hdl}

theorem PathsAgree.refl (keyL : RuleKey) (isIngress : Bool) (h : Hdl) :
    PathsAgree keyL isIngress h h h :=
  ⟨OwnExt.refl _ _ h, OwnExt.refl _ _ h, fun _ => rfl⟩

theorem PathsAgree.or (paths : PathsAgree keyL isIngress h hE hR) {hE' hR' : Hdl}
    (ownE : OwnExt keyL (rangeKeyOf keyL isIngress) h hE')
    (ownR : OwnExt keyL (rangeKeyOf keyL isIngress) h hR') (added : Nat → Option Desc)
    (stepE : ∀ x, ownAnswer hE' (rangeKeyOf keyL isIngress) { keyL with app := x } =
      (ownAnswer hE (rangeKeyOf keyL isIngress) { keyL with app := x }).or (added x))
    (stepR : ∀ x, ownAnswer hR' (rangeKeyOf keyL isIngress) { keyL with app := x } =
      (ownAnswer hR (rangeKeyOf keyL isIngress) { keyL with app := x }).or (added x)) :
    PathsAgree keyL isIngress h hE' hR' :=
  ⟨ownE, ownR, fun x => by rw [stepE, stepR, paths.agree]⟩

theorem PathsAgree.lookupRaw_eq (paths : PathsAgree keyL isIngress h hE hR) (k : RuleKey) :
    dpiPolicyLookupByKeyRaw hE k isIngress = dpiPolicyLookupByKeyRaw hR k isIngress := by
  by_cases own : ∃ x, k = { keyL with app := x }
  · obtain ⟨x, rfl⟩ := own
    rw [lookupRaw_ownAnswer hE (rangeKeyOf_app keyL x isIngress),
      lookupRaw_ownAnswer hR (rangeKeyOf_app keyL x isIngress), paths.agree x,
      paths.ownE.noDirResult_eq, paths.ownR.noDirResult_eq]
  · simp only [not_exists] at own
    rw [paths.ownE.lookupRaw_untouched own, paths.ownR.lookupRaw_untouched own]

end Paths

section Run

variable {env : PolicyEnv} {keyL : RuleKey} {dir : RuleDir} {D : Desc} {h hE hR : Hdl}

theorem PathsAgree.appStep (paths : PathsAgree keyL (decide (dir = .ingress)) h hE hR)
    (fresh : Fresh env h keyL (decide (dir = .ingress))) (directed : dir ≠ .none) {ar : AppRule}
    (pos : 0 < ar.ruleId) (a a' c : Nat) (eE eR : Desc) :
    PathsAgree keyL (decide (dir = .ingress)) h
      (dpiAddAppRule env hE { keyL with app := a } none ar dir D eE).result.hdl
      (dpiAddAppRule env hR { keyL with app := a' } (some { keyL with app := c }) ar dir D eR).result.hdl := by
  have list : ∀ a b, getRangeKey { keyL with app := a } { keyL with app := b } dir =
      some (rangeKeyOf keyL (decide (dir = .ingress))) := getRangeKey_withApp directed
  rw [dpiAddAppRule_some]
  by_cases app : ar.app = 0
  · rw [dpiAddAppRule_none_any app]
    simp only [app, ne_eq, not_true_eq_false, if_false]
    exact paths.or (paths.ownE.rangeAdd directed 0 _ pos eE) (paths.ownR.rangeAdd directed 0 _ pos eR)
      _ (fun x => ownAnswer_dpiRangeRuleAdd hE _ eE (list 0 _) _)
      (fun x => ownAnswer_dpiRangeRuleAdd hR _ eR (list 0 _) _)
  · rw [dpiAddAppRule_none_point app]
    simp only [app, ne_eq, not_false_eq_true, if_true]
    refine paths.or (paths.ownE.exactAdd fresh ar.app pos eE)
      (paths.ownR.rangeAdd directed ar.app ar.app pos eR)
      (fun x => if x = ar.app then some (appDesc ar D) else none) (fun x => ?_) (fun x => ?_)
    · rw [ownAnswer_exactAdd paths.ownE fresh]
      simp only [withApp_eq_iff]
    · rw [ownAnswer_dpiRangeRuleAdd hR _ eR (list _ _), ruleKeyInRange_point_withApp]
      simp only [decide_eq_true_eq]

theorem PathsAgree.appLoop (paths : PathsAgree keyL (decide (dir = .ingress)) h hE hR)
    (fresh : Fresh env h keyL (decide (dir = .ingress))) (directed : dir ≠ .none)
    {apps : List AppRule} (pos : ∀ ar ∈ apps, 0 < ar.ruleId) (a a' c : Nat) (eE eR : Desc)
    (retE retR : Int) :
    PathsAgree keyL (decide (dir = .ingress)) h
      (addAppRules env dir D hE { keyL with app := a } none eE retE apps).2.1
      (addAppRules env dir D hR { keyL with app := a' } (some { keyL with app := c }) eR retR
        apps).2.1 := by
  induction apps generalizing hE hR a a' c eE eR retE retR with
  | nil => exact paths
  | cons ar rest ih =>
    -- the keys after a pass are the rule's keys at the pass's application
    exact ih (paths.appStep fresh directed (pos ar (by simp)) a a' c eE eR)
      (fun r mem => pos r (by simp [mem])) ar.app ar.app
      (if ar.app ≠ 0 then ar.app else 0xffffffff) _ _ _ _

theorem PathsAgree.rest {rE rR : AddResult} {apps : List AppRule}
    (paths : PathsAgree keyL (decide (dir = .ingress)) h rE.hdl rR.hdl)
    (fresh : Fresh env h keyL (decide (dir = .ingress))) (directed : dir ≠ .none)
    (pos : 0 < D.id) (appPos : ∀ ar ∈ apps, 0 < ar.ruleId) (ret : rE.ret = rR.ret)
    (exist : rR.ret = 0 → (0 < rE.existDesc.id ↔ 0 < rR.existDesc.id)) :
    PathsAgree keyL (decide (dir = .ingress)) h
      (let any := anyAppPass env keyL none dir D rE
       (addAppRules env dir D any.result.hdl any.keyL any.keyH any.result.existDesc any.result.ret
          apps).2.1)
      (let any := anyAppPass env keyL (some keyL) dir D rR
       (addAppRules env dir D any.result.hdl any.keyL any.keyH any.result.existDesc any.result.ret
          apps).2.1) := by
  have same : (rE.ret = 0 ∧ 0 < rE.existDesc.id ∧ D.action ≠ dpPolicyActionCheckApp ∨
        0 < rE.ret ∧ 0 < D.id ∧ D.action ≠ dpPolicyActionCheckApp) ↔
      (rR.ret = 0 ∧ 0 < rR.existDesc.id ∧ D.action ≠ dpPolicyActionCheckApp ∨
        0 < rR.ret ∧ 0 < D.id ∧ D.action ≠ dpPolicyActionCheckApp) := by
    rw [ret]
    by_cases zero : rR.ret = 0
    · rw [exist zero]
    · simp [zero]
  simp only [anyAppPass]
  by_cases cond : rR.ret = 0 ∧ 0 < rR.existDesc.id ∧ D.action ≠ dpPolicyActionCheckApp ∨
      0 < rR.ret ∧ 0 < D.id ∧ D.action ≠ dpPolicyActionCheckApp
  · -- the rule for any application: an item of the whole application range on both paths
    rw [if_pos (same.mpr cond), if_pos cond]
    exact (paths.appStep fresh directed (show 0 < (appAnyRule D).ruleId from pos) keyL.app
      keyL.app keyL.app _ _).appLoop fresh directed appPos 0 0 0xffffffff _ _ _ _
  · rw [if_neg (mt same.mp cond), if_neg cond]
    exact paths.appLoop fresh directed appPos keyL.app keyL.app keyL.app _ _ _ _

end Run

/-- The range path answers the rule's own key, with the first item whose bounds are that key. -/
def PointFirst (keyL : RuleKey) (L : RangeKey) (hR : Hdl) : Prop :=
  ∃ p, (hR.rangePolicyMap L).find? (fun p => decide (p.keyL = keyL ∧ p.keyH = keyL)) = some p ∧
    ownAnswer hR L keyL = some p.desc

section Point

variable {env : PolicyEnv} {keyL : RuleKey} {dir : RuleDir} {D : Desc} {L : RangeKey} {hR : Hdl}

theorem ruleKeyInRange_self {p : RangeItem} {k : RuleKey} (lower : p.keyL = k) (upper : p.keyH = k) :
    ruleKeyInRange p k = true := by
  simp [ruleKeyInRange, isXInRange, lower, upper]

theorem dpiRangeRuleAdd_of_unanswered (unanswered : ownAnswer hR L keyL = none)
    (list : getRangeKey keyL keyL dir = some L) (e : Desc) :
    dpiRangeRuleAdd hR keyL keyL dir D e =
      ⟨1, hR.setRange L (hR.rangePolicyMap L ++ [⟨D, keyL, keyL⟩]), e⟩ := by
  rcases dpiRangeRuleAdd_cases hR D e list with ⟨p, mem, lower, upper, -⟩ | eq
  · have noMatch := Option.map_eq_none_iff.mp (Option.or_eq_none_iff.mp unanswered).2
    exact absurd (ruleKeyInRange_self lower upper) (dpiRangeRuleMatch_eq_none.mp noMatch p mem)
  · exact eq

theorem PointFirst.of_unanswered (unanswered : ownAnswer hR L keyL = none) :
    PointFirst keyL L (hR.setRange L (hR.rangePolicyMap L ++ [⟨D, keyL, keyL⟩])) := by
  have noMatch := Option.map_eq_none_iff.mp (Option.or_eq_none_iff.mp unanswered).2
  have noPoint : (hR.rangePolicyMap L).find? (fun p => decide (p.keyL = keyL ∧ p.keyH = keyL)) =
      none := List.find?_eq_none.mpr fun p mem bounds => by
    simp only [decide_eq_true_eq] at bounds
    exact dpiRangeRuleMatch_eq_none.mp noMatch p mem (ruleKeyInRange_self bounds.1 bounds.2)
  refine ⟨⟨D, keyL, keyL⟩, ?_, ?_⟩
  · rw [setRange_same, List.find?_append, noPoint, Option.none_or]
    simp
  rw [ownAnswer_setRange, unanswered, ruleKeyInRange_self rfl rfl]
  rfl

theorem PointFirst.rangeAdd (point : PointFirst keyL L hR) {kl kh : RuleKey}
    (list : getRangeKey kl kh dir = some L) (d e : Desc) :
    PointFirst keyL L (dpiRangeRuleAdd hR kl kh dir d e).hdl := by
  obtain ⟨p, first, answer⟩ := point
  rcases dpiRangeRuleAdd_cases hR d e list with ⟨q, -, -, -, eq⟩ | eq
  · rw [eq]
    exact ⟨p, first, answer⟩
  · rw [eq]
    refine ⟨p, by rw [setRange_same, List.find?_append, first, Option.some_or], ?_⟩
    rw [ownAnswer_setRange, answer]
    rfl

theorem PointFirst.appLoop (point : PointFirst keyL (rangeKeyOf keyL (decide (dir = .ingress))) hR)
    (directed : dir ≠ .none) (apps : List AppRule) (a c : Nat) (e : Desc) (ret : Int) :
    PointFirst keyL (rangeKeyOf keyL (decide (dir = .ingress)))
      (addAppRules env dir D hR { keyL with app := a } (some { keyL with app := c }) e ret apps).2.1 := by
  induction apps generalizing hR a c e ret with
  | nil => exact point
  | cons ar rest ih =>
    exact ih (point.rangeAdd (getRangeKey_withApp directed _ _) _ e) ar.app
      (if ar.app ≠ 0 then ar.app else 0xffffffff) _ _

theorem PointFirst.rest {rR : AddResult} {apps : List AppRule}
    (point : PointFirst keyL (rangeKeyOf keyL (decide (dir = .ingress))) rR.hdl)
    (directed : dir ≠ .none) :
    PointFirst keyL (rangeKeyOf keyL (decide (dir = .ingress)))
      (let any := anyAppPass env keyL (some keyL) dir D rR
       (addAppRules env dir D any.result.hdl any.keyL any.keyH any.result.existDesc any.result.ret
          apps).2.1) := by
  simp only [anyAppPass]
  split
  · exact (point.rangeAdd (getRangeKey_withApp directed 0 0xffffffff) _ _).appLoop
      directed apps 0 0xffffffff _ _
  · exact point.appLoop directed apps keyL.app keyL.app _ _

end Point

/-! ### Rules installed one after another -/

/-- Between two rules: the paths agree, and the range path answers the rule's key with its first
item once it answers it at all. -/
structure Installed (keyL : RuleKey) (isIngress : Bool) (h hE hR : Hdl) : Prop where
  paths : PathsAgree keyL isIngress h hE hR
  point : ownAnswer hR (rangeKeyOf keyL isIngress) keyL = none ∨
    PointFirst keyL (rangeKeyOf keyL isIngress) hR

section Install

variable {env : PolicyEnv} {keyL : RuleKey} {dir : RuleDir} {D : Desc} {h hE hR : Hdl}

theorem Installed.init (fresh : Fresh env h keyL (decide (dir = .ingress))) :
    Installed keyL (decide (dir = .ingress)) h h h :=
  ⟨PathsAgree.refl keyL _ h, .inl (fresh.noAnswer keyL.app)⟩

theorem Installed.ruleAdd_unanswered (inst : Installed keyL (decide (dir = .ingress)) h hE hR)
    (fresh : Fresh env h keyL (decide (dir = .ingress))) (directed : dir ≠ .none)
    {apps : List AppRule} (pos : 0 < D.id) (appPos : ∀ ar ∈ apps, 0 < ar.ruleId)
    (answer : ownAnswer hR (rangeKeyOf keyL (decide (dir = .ingress))) keyL = none) :
    Installed keyL (decide (dir = .ingress)) h (dpiRuleAdd env hE keyL none apps dir D).2.1
      (dpiRuleAdd env hR keyL (some keyL) apps dir D).2.1 := by
  have list : ∀ a b, getRangeKey { keyL with app := a } { keyL with app := b } dir =
      some (rangeKeyOf keyL (decide (dir = .ingress))) := getRangeKey_withApp directed
  have answerE : ownAnswer hE (rangeKeyOf keyL (decide (dir = .ingress)))
      { keyL with app := keyL.app } = none := (inst.paths.agree keyL.app).trans answer
  have retE : (dpiRuleAddOne env hE keyL none dir D Desc.zero).ret = 1 :=
    dpiRuleAddOne_exact_ret inst.paths.ownE fresh D Desc.zero answerE
  have firstR := dpiRangeRuleAdd_of_unanswered (D := D) answer (list keyL.app keyL.app) Desc.zero
  have first : PathsAgree keyL (decide (dir = .ingress)) h
      (dpiRuleAddOne env hE keyL none dir D Desc.zero).hdl
      (dpiRuleAddOne env hR keyL (some keyL) dir D Desc.zero).hdl := by
    refine inst.paths.or (inst.paths.ownE.exactAdd fresh keyL.app pos Desc.zero)
      (inst.paths.ownR.rangeAdd directed keyL.app keyL.app pos Desc.zero)
      (fun x => if x = keyL.app then some D else none) (fun x => ?_) (fun x => ?_)
    · have step := ownAnswer_exactAdd inst.paths.ownE fresh keyL.app D Desc.zero
        { keyL with app := x }
      simp only [withApp_eq_iff] at step
      exact step
    · have step := ownAnswer_dpiRangeRuleAdd hR D Desc.zero (list keyL.app keyL.app)
        { keyL with app := x }
      rw [ruleKeyInRange_point_withApp] at step
      simp only [decide_eq_true_eq] at step
      exact step
  have retR : (dpiRuleAddOne env hR keyL (some keyL) dir D Desc.zero).ret = 1 := by
    show (dpiRangeRuleAdd hR keyL keyL dir D Desc.zero).ret = 1
    rw [firstR]
  rw [dpiRuleAdd_hdl_of_continue (by rw [retE]; decide) (by simp [retE]),
    dpiRuleAdd_hdl_of_continue (by rw [retR]; decide) (by simp [retR])]
  refine ⟨first.rest fresh directed pos appPos (retE.trans retR.symm) (by simp [retR]), .inr ?_⟩
  have point : PointFirst keyL (rangeKeyOf keyL (decide (dir = .ingress)))
      (dpiRuleAddOne env hR keyL (some keyL) dir D Desc.zero).hdl := by
    show PointFirst _ _ (dpiRangeRuleAdd hR keyL keyL dir D Desc.zero).hdl
    rw [firstR]
    exact PointFirst.of_unanswered answer
  exact point.rest directed

theorem Installed.ruleAdd_answered (inst : Installed keyL (decide (dir = .ingress)) h hE hR)
    (fresh : Fresh env h keyL (decide (dir = .ingress))) (directed : dir ≠ .none)
    {apps : List AppRule} (pos : 0 < D.id) (appPos : ∀ ar ∈ apps, 0 < ar.ruleId) {d : Desc}
    (answer : ownAnswer hR (rangeKeyOf keyL (decide (dir = .ingress))) keyL = some d) :
    Installed keyL (decide (dir = .ingress)) h (dpiRuleAdd env hE keyL none apps dir D).2.1
      (dpiRuleAdd env hR keyL (some keyL) apps dir D).2.1 := by
  obtain ⟨p, firstItem, answerR⟩ := inst.point.resolve_left (by simp [answer])
  have pd : p.desc = d := Option.some.inj (answerR.symm.trans answer)
  have answerE : ownAnswer hE (rangeKeyOf keyL (decide (dir = .ingress)))
      { keyL with app := keyL.app } = some d := (inst.paths.agree keyL.app).trans answer
  have posD : 0 < d.id := inst.paths.ownE.ownAnswer_pos (fresh.noAnswer keyL.app) answerE
  -- the exact path's insertion lookup reports the rule that answers the key
  have found : (dpiPolicyLookupByKey env (some hE) keyL.sip keyL.dip keyL.dport keyL.proto
      keyL.app (decide (dir = .ingress)) Desc.zero false).verdict = d.verdict := by
    rw [insertLookup_verdict inst.paths.ownE fresh keyL.app Desc.zero,
      lookupRaw_ownAnswer hE (rangeKeyOf_app keyL keyL.app _), answerE]
    rfl
  simp only [Desc.verdict, Prod.mk.injEq] at found
  have firstE : dpiRuleAddOne env hE keyL none dir D Desc.zero =
      ⟨0, hE, dpiPolicyLookupByKey env (some hE) keyL.sip keyL.dip keyL.dport keyL.proto keyL.app
        (decide (dir = .ingress)) Desc.zero false⟩ := by
    simp only [dpiRuleAddOne]
    rw [if_pos (by omega)]
  have firstR : dpiRuleAddOne env hR keyL (some keyL) dir D Desc.zero = ⟨0, hR, p.desc⟩ := by
    show dpiRangeRuleAdd hR keyL keyL dir D Desc.zero = _
    simp only [dpiRangeRuleAdd, getRangeKey_withApp directed keyL.app keyL.app]
    rw [firstItem]
  by_cases checkApp : d.action = dpPolicyActionCheckApp
  · -- an existing CHECK_APP rule: both paths add the rule's passes
    rw [dpiRuleAdd_hdl_of_continue (by simp [firstE]) (by simp [firstE, found, checkApp]),
      dpiRuleAdd_hdl_of_continue (by simp [firstR]) (by simp [firstR, pd, checkApp]), firstE,
      firstR]
    exact ⟨inst.paths.rest fresh directed pos appPos rfl (fun _ => by simp [found, pd]),
      .inr (PointFirst.rest ⟨p, firstItem, answerR⟩ directed)⟩
  · rw [dpiRuleAdd_hdl_of_stop (by simp [firstE, found, checkApp, posD]),
      dpiRuleAdd_hdl_of_stop (by simp [firstR, pd, checkApp, posD]), firstE, firstR]
    exact inst

theorem Installed.ruleAdd (inst : Installed keyL (decide (dir = .ingress)) h hE hR)
    (fresh : Fresh env h keyL (decide (dir = .ingress))) (directed : dir ≠ .none)
    {apps : List AppRule} (pos : 0 < D.id) (appPos : ∀ ar ∈ apps, 0 < ar.ruleId) :
    Installed keyL (decide (dir = .ingress)) h (dpiRuleAdd env hE keyL none apps dir D).2.1
      (dpiRuleAdd env hR keyL (some keyL) apps dir D).2.1 := by
  cases answer : ownAnswer hR (rangeKeyOf keyL (decide (dir = .ingress))) keyL with
  | none => exact inst.ruleAdd_unanswered fresh directed pos appPos answer
  | some d => exact inst.ruleAdd_answered fresh directed pos appPos answer

theorem Installed.run (inst : Installed keyL (decide (dir = .ingress)) h hE hR)
    (fresh : Fresh env h keyL (decide (dir = .ingress))) (directed : dir ≠ .none)
    (rules : List (List AppRule × Desc))
    (pos : ∀ r ∈ rules, 0 < r.2.id ∧ ∀ ar ∈ r.1, 0 < ar.ruleId) :
    Installed keyL (decide (dir = .ingress)) h
      (rules.foldl (fun hdl r => (dpiRuleAdd env hdl keyL none r.1 dir r.2).2.1) hE)
      (rules.foldl (fun hdl r => (dpiRuleAdd env hdl keyL (some keyL) r.1 dir r.2).2.1) hR) := by
  induction rules generalizing hE hR with
  | nil => exact inst
  | cons r rest ih =>
    have first := pos r List.mem_cons_self
    exact ih (inst.ruleAdd fresh directed first.1 first.2)
      (fun r' mem => pos r' (List.mem_cons_of_mem r mem))

end Install

end MicroSegment.Dp.Policy
