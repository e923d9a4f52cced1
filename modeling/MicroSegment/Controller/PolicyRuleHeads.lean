import MicroSegment.Lib.ListMove

/-!
# Controller: the order of the policy rule heads (`controller/rest/policy.go`)

The cluster keeps the network policy as a list of rule heads sorted by zone: federal rules, then
ground (base) rules, then all others. `insertPolicyRule` validates the rules of a request and
inserts their heads as one block where `locatePosition` points, clamped into the zone of the
request's scope. `movePolicyRule` moves one head with `moveRuleID`, which clamps the target into
the zone of the rule and shifts the heads in between by one place.

The store is the list of heads. A request ends with an error response or a panic, which write
nothing, or with the new list (`Outcome`). What the repository does not hold (the rule cache, the
cluster lock and transaction, the validation of a rule's body and the access check) is a
parameter. Indices are Go `int`s, so `Int`; rule IDs are `uint32`s and `after` an `int`.
-/

namespace MicroSegment.Controller

/-- `share.TCfgType`; `unset` is the zero value, which a lookup of an unknown string gives. -/
inductive TCfgType
  | unset
  | learned
  | userCreated
  | groundCfg
  | federalCfg
  | systemDefined
  deriving DecidableEq, Repr, Inhabited

/-- `share.CLUSRuleHead`; `Priority` and `Learned_UNUSED` are not read here. -/
structure CLUSRuleHead where
  id : Nat
  cfgType : TCfgType
  deriving DecidableEq, Repr, Inhabited

def scopeLocal : String := "local"
def scopeFed : String := "fed"

def cfgTypeLearned : String := "learned"
def cfgTypeUserCreated : String := "user_created"
def cfgTypeGround : String := "ground"
def cfgTypeFederal : String := "federal"
def cfgSystemDefined : String := "system_defined"

def policyLearnedIDBase : Nat := 10000
def policyFedRuleIDBase : Nat := 100000
def policyFedRuleIDMax : Nat := 110000
def policyGroundRuleIDBase : Nat := 110000
def policyGroundRuleIDMax : Nat := 120000
def policyAutoID : Nat := 0

def uint32Of (n : Int) : Nat := (n % 2 ^ 32).toNat

/-- `locatePosition`: the index for an entry placed by `after` (none: last, 0: first, +id: after
rule id, -id: before rule id), -1 when the rule is not there. `moveIDx` is the moving item's
index, negative for an insert. The second result, `after` for the log, is left out. -/
def locatePosition (crhs : List CLUSRuleHead) (after : Option Int) (moveIDx : Int) : Int :=
  match after with
  | none => if moveIDx < 0 then crhs.length else crhs.length - 1
  | some after =>
    if after = 0 then 0
    else
      let before := decide (after < 0)
      let pos := if 0 < after then after else -after
      match crhs.findIdx? (fun crh => crh.id = uint32Of pos) with
      | none => -1
      | some i =>
        if before then
          -- moving downwards to before an item
          if 0 ≤ moveIDx ∧ moveIDx < i then i - 1 else i
        else
          -- moving downwards to after an item
          if 0 ≤ moveIDx ∧ moveIDx < i then i else i + 1

def clampIdx (toIdx topIdx bottomIdx : Int) : Int :=
  if toIdx < topIdx then topIdx else if toIdx > bottomIdx then bottomIdx else toIdx

/-! ### Moving a rule -/

/-- What the loop of `moveRuleID` finds: the moving item's index (-1 when absent), and the top
and bottom of its zone (`bottomIdx` -1: the end). -/
structure MoveBounds where
  moveIdx : Int
  topIdx : Int
  bottomIdx : Int
  deriving DecidableEq, Repr

def moveScanStep (id : Nat) (ruleCfgType : TCfgType) (crh : CLUSRuleHead) (i : Nat)
    (b : MoveBounds) : MoveBounds :=
  let b := if crh.id = id then { b with moveIdx := i } else b
  -- a federal rule moves among federal rules, any other below the federal and ground ones
  if ruleCfgType = .federalCfg then
    if crh.cfgType = .federalCfg then { b with bottomIdx := b.bottomIdx + 1 } else b
  else if crh.cfgType = .federalCfg ∨ crh.cfgType = .groundCfg then { b with topIdx := b.topIdx + 1 }
  else b

def moveScan (id : Nat) (ruleCfgType : TCfgType) :
    List CLUSRuleHead → Nat → MoveBounds → Except String MoveBounds
  | [], _, b => .ok b
  | crh :: crhs, i, b =>
    if crh.id = id ∧ crh.cfgType = .groundCfg then .error "Can't move Base Rule"
    else moveScan id ruleCfgType crhs (i + 1) (moveScanStep id ruleCfgType crh i b)

def shiftDown {α : Type} [Inhabited α] (crhs : List α) (i : Nat) : Nat → List α
  | 0 => crhs
  | n + 1 => shiftDown (crhs.set i (crhs.getD (i + 1) default)) (i + 1) n

def shiftUp {α : Type} [Inhabited α] (crhs : List α) (i : Nat) : Nat → List α
  | 0 => crhs
  | n + 1 => shiftUp (crhs.set i (crhs.getD (i - 1) default)) (i - 1) n

/-- `moveRuleID`: the heads with rule `id` moved by `after`, or the error. -/
def moveRuleID (crhs : List CLUSRuleHead) (id : Nat) (ruleCfgType : TCfgType) (after : Option Int) :
    Except String (List CLUSRuleHead) :=
  match moveScan id ruleCfgType crhs 0 ⟨-1, 0, -1⟩ with
  | .error e => .error e
  | .ok b =>
    if b.moveIdx = -1 then .error "Rule to move doesn't exist"
    else
      let toIdx := locatePosition crhs after b.moveIdx
      if toIdx = -1 then .error "Move-to position cannot be found"
      else
        let bottomIdx := if b.bottomIdx = -1 then (crhs.length : Int) - 1 else b.bottomIdx
        let toIdx := clampIdx toIdx b.topIdx bottomIdx
        let mr := crhs.getD b.moveIdx.toNat default
        if b.moveIdx = toIdx then .ok crhs
        else if b.moveIdx < toIdx then
          .ok ((shiftDown crhs b.moveIdx.toNat (toIdx - b.moveIdx).toNat).set toIdx.toNat mr)
        else .ok ((shiftUp crhs b.moveIdx.toNat (b.moveIdx - toIdx).toNat).set toIdx.toNat mr)

/-- What a REST handler leaves in the store: the new heads, or nothing written after an error
response or a panic. -/
inductive Outcome
  | ok (crhs : List CLUSRuleHead)
  | fail (msg : String)
  | panic
  deriving DecidableEq, Repr

def Outcome.stored (crhs : List CLUSRuleHead) : Outcome → List CLUSRuleHead
  | .ok crhs' => crhs'
  | .fail _ => crhs
  | .panic => crhs

/-- `movePolicyRule` on the stored heads `crhs`. `crule` is the rule's `CfgType` in the cache or
its error, `lock` whether the cluster lock is taken, `put` the error of the write, if any. -/
def movePolicyRule (crule : Except String TCfgType) (lock : Bool) (put : Option String)
    (crhs : List CLUSRuleHead) (moveID : Nat) (after : Option Int) : Outcome :=
  match crule with
  | .error e => .fail e
  | .ok cfgType =>
    if !lock then .fail "Failed to acquire cluster lock"
    else if crhs = [] then .fail "Policy rule doesn't exist"
    -- a move after or before itself is no move, and nothing is written
    else if after ≠ none ∧ after ≠ some 0 ∧ after = some (moveID : Int) then .ok crhs
    else
      match moveRuleID crhs moveID cfgType after with
      | .error e => .fail e
      | .ok crhs' =>
        match put with
        | some e => .fail e
        | none => .ok crhs'

/-! ### Inserting rules -/

/-- The fields of `api.RESTPolicyRule` that `insertPolicyRule` reads; `body` stands for the rest,
which only the validation in the environment reads. -/
structure RESTPolicyRule (β : Type) where
  id : Nat
  cfgType : String
  body : β
  deriving DecidableEq, Repr

/-- What `insertPolicyRule` asks of the rest of the controller: the cluster lock, the checks of
`validateRestPolicyRule` and `validateClusterPolicyRule` (an error or none), `acc.Authorize`,
and the error of the transaction that writes the rules and the heads, if any. -/
structure InsertEnv (β : Type) where
  lock : Bool
  validateRest : RESTPolicyRule β → Option String
  validateCluster : RESTPolicyRule β → Option String
  authorize : RESTPolicyRule β → Bool
  commit : Option String

/-- `utils.ApiCfgTypeToTCfgType`, with the zero value for a string it lacks. -/
def apiCfgTypeToTCfgType (s : String) : TCfgType :=
  if s = cfgTypeLearned then .learned
  else if s = cfgTypeUserCreated then .userCreated
  else if s = cfgTypeGround then .groundCfg
  else if s = cfgTypeFederal then .federalCfg
  else if s = cfgSystemDefined then .systemDefined
  else .unset

def isLearnedPolicyID (id : Nat) : Bool := policyLearnedIDBase ≤ id ∧ id < policyFedRuleIDBase

def isSecurityPolicyID (id : Nat) : Bool := policyGroundRuleIDBase ≤ id

/-- `isLocalReservedId`: the error for an ID in the learned or ground range. -/
def isLocalReservedId (id : Nat) : Option String :=
  let ruleype := if isLearnedPolicyID id then "learned" else if isSecurityPolicyID id then "ground" else ""
  if ruleype ≠ "" then
    some ("ID is reserved for " ++ ruleype ++ " rule. Use ID between 1 and " ++
      toString policyLearnedIDBase ++ ".")
  else none

/-- `common.GetAvailablePolicyID`: one above the largest ID in use in the range of `cfgType`, or
else the smallest free one, or 0. -/
def getAvailablePolicyID (ids : List Nat) (cfgType : TCfgType) : Nat :=
  let (idMax, idMin) :=
    if cfgType = .groundCfg then (policyGroundRuleIDMax, policyGroundRuleIDBase + 1)
    else if cfgType = .federalCfg then (policyFedRuleIDMax, policyFedRuleIDBase + 1)
    else if cfgType = .learned then (policyFedRuleIDBase, policyLearnedIDBase + 1)
    else (policyLearnedIDBase, 1)
  let max := ids.foldl (fun max id => if id < idMax ∧ id > max then id else max) (idMin - 1)
  if max < idMax - 1 then max + 1
  else ((List.range' idMin (idMax - idMin)).find? (· ∉ ids)).getD 0

/-- What the validation loop of `insertPolicyRule` carries: the IDs in use, the request's rules
as the loop leaves them (with defaults and automatic IDs written in), and the new rules. -/
structure Validated (β : Type) where
  ids : List Nat
  rules : List (Option (RESTPolicyRule β))
  newRules : List (RESTPolicyRule β)

/-- A rule of the request without a `CfgType` gets the scope's. -/
def withDefaultCfgType {β : Type} (scope : String) (rr : RESTPolicyRule β) : RESTPolicyRule β :=
  if rr.cfgType = "" then
    { rr with cfgType := if scope = scopeFed then cfgTypeFederal else cfgTypeUserCreated }
  else rr

/-- The checks of the validation loop on a rule with its `CfgType` set. An accepted rule takes
its ID, a free one when it asks for `PolicyAutoID`, and joins the new rules. -/
def acceptRule {β : Type} (env : InsertEnv β) (scope : String) (v : Validated β)
    (rr : RESTPolicyRule β) : Except String (Validated β) :=
  let cfgType := apiCfgTypeToTCfgType rr.cfgType
  if (cfgType = .federalCfg ∧ scope = scopeLocal) ∨ (cfgType ≠ .federalCfg ∧ scope = scopeFed) then
    .error "Mismatched rule CfgType with request"
  else if rr.id ∈ v.ids then .error "Duplicate rule ID"
  else if cfgType = .learned ∨ cfgType = .groundCfg then .error "Cannot create learned/Base policy rule"
  else match isLocalReservedId rr.id with
    | some e => .error e
    | none =>
      let auto := rr.id = policyAutoID
      let rr := if auto then { rr with id := getAvailablePolicyID v.ids cfgType } else rr
      -- the source answers this one with an error response but returns its nil `err`
      if auto ∧ rr.id = 0 then .error "Failed to locate available rule ID"
      else match env.validateRest rr with
        | some e => .error e
        | none =>
          match env.validateCluster rr with
          | some e => .error e
          | none =>
            if !env.authorize rr then .error "Access denied"
            else .ok ⟨v.ids ++ [rr.id], v.rules ++ [some rr], v.newRules ++ [rr]⟩

def validateRule {β : Type} (env : InsertEnv β) (scope : String) (v : Validated β) :
    Option (RESTPolicyRule β) → Except String (Validated β)
  | none => .ok { v with rules := v.rules ++ [none] }
  | some rr => acceptRule env scope v (withDefaultCfgType scope rr)

def insertBoundsStep (scope : String) (bounds : Int × Int) (crh : CLUSRuleHead) : Int × Int :=
  -- federal rules go among the federal ones, local rules after the last ground rule
  if scope = scopeFed then
    (bounds.1, if crh.cfgType = .federalCfg then bounds.2 + 1 else bounds.2)
  else if scope = scopeLocal then
    (if crh.cfgType = .federalCfg ∨ crh.cfgType = .groundCfg then bounds.1 + 1 else bounds.1,
      bounds.2 + 1)
  else bounds

def insertBounds (scope : String) (crhs : List CLUSRuleHead) : Int × Int :=
  crhs.foldl (insertBoundsStep scope) (0, 0)

def ruleHeads {β : Type} (cfgType : TCfgType) (rules : List (Option (RESTPolicyRule β))) :
    Option (List CLUSRuleHead) :=
  rules.mapM fun r => r.map fun r => ⟨r.id, cfgType⟩

/-- `insertPolicyRule` on the stored heads `crhs`, for the rules `rules` of a request (nil ones
as `none`) placed by `after`. -/
def insertPolicyRule {β : Type} (env : InsertEnv β) (scope : String) (crhs : List CLUSRuleHead)
    (after : Option Int) (rules : List (Option (RESTPolicyRule β))) : Outcome :=
  if !env.lock then .fail "Failed to acquire cluster lock"
  else
    let toIdx := locatePosition crhs after (-1)
    if toIdx = -1 then .fail "Insert position cannot be found"
    else
      let toIdx := clampIdx toIdx (insertBounds scope crhs).1 (insertBounds scope crhs).2
      match rules.foldlM (validateRule env scope) ⟨crhs.map (·.id), [], []⟩ with
      | .error e => .fail e
      | .ok v =>
        match ruleHeads (if scope = scopeFed then .federalCfg else .userCreated) v.rules with
        | none => .panic
        | some news =>
          match env.commit with
          | some e => .fail e
          -- `append(crhs[:toIdx], append(news, crhs[toIdx:]...)...)`
          | none => .ok (ListMove.insertBlock crhs toIdx.toNat news)

def zone : TCfgType → Nat
  | .federalCfg => 0
  | .groundCfg => 1
  | _ => 2

def headZone (crh : CLUSRuleHead) : Nat := zone crh.cfgType

/-- What the stored heads keep: unique IDs, and the zones in order. -/
structure HeadsOK (crhs : List CLUSRuleHead) : Prop where
  unique : (crhs.map (·.id)).Nodup
  ordered : crhs.Pairwise fun a b => headZone a ≤ headZone b

theorem zone_lt_one_iff (t : TCfgType) : zone t < 1 ↔ t = .federalCfg := by
  cases t <;> simp [zone]

theorem zone_lt_two_iff (t : TCfgType) : zone t < 2 ↔ t = .federalCfg ∨ t = .groundCfg := by
  cases t <;> simp [zone]

theorem zone_le_two (t : TCfgType) : zone t ≤ 2 := by
  cases t <;> simp [zone]

theorem clampIdx_mem (toIdx : Int) {topIdx bottomIdx : Int} (le : topIdx ≤ bottomIdx) :
    topIdx ≤ clampIdx toIdx topIdx bottomIdx ∧ clampIdx toIdx topIdx bottomIdx ≤ bottomIdx := by
  unfold clampIdx
  split
  · omega
  split <;> omega

open ListMove

theorem scopeFed_ne_scopeLocal : scopeFed ≠ scopeLocal := by decide

theorem foldl_insertBoundsStep_fed (crhs : List CLUSRuleHead) (bounds : Int × Int) :
    crhs.foldl (insertBoundsStep scopeFed) bounds =
      (bounds.1, bounds.2 + countBelow headZone 1 crhs) := by
  induction crhs generalizing bounds with
  | nil => simp
  | cons crh crhs ih =>
    rw [List.foldl_cons, ih, countBelow_cons]
    by_cases fed : crh.cfgType = .federalCfg
    · have below : headZone crh < 1 := (zone_lt_one_iff _).mpr fed
      simp only [insertBoundsStep, if_true, fed, below, Prod.mk.injEq, true_and]
      omega
    · have notBelow : ¬ headZone crh < 1 := fun below => fed ((zone_lt_one_iff _).mp below)
      simp [insertBoundsStep, fed, notBelow]

theorem foldl_insertBoundsStep_local (crhs : List CLUSRuleHead) (bounds : Int × Int) :
    crhs.foldl (insertBoundsStep scopeLocal) bounds =
      (bounds.1 + countBelow headZone 2 crhs, bounds.2 + crhs.length) := by
  induction crhs generalizing bounds with
  | nil => simp
  | cons crh crhs ih =>
    rw [List.foldl_cons, ih, countBelow_cons]
    simp only [insertBoundsStep, if_neg scopeFed_ne_scopeLocal.symm, if_true, List.length_cons]
    by_cases low : crh.cfgType = .federalCfg ∨ crh.cfgType = .groundCfg
    · have below : headZone crh < 2 := (zone_lt_two_iff _).mpr low
      simp only [low, below, if_true, Prod.mk.injEq]
      omega
    · have notBelow : ¬ headZone crh < 2 := fun below => low ((zone_lt_two_iff _).mp below)
      simp only [low, notBelow, if_false, Prod.mk.injEq]
      omega

/-! ### Validating the request -/

theorem foldl_largest (idMax : Nat) (ids : List Nat) (start : Nat) :
    start ≤ ids.foldl (fun max id => if id < idMax ∧ id > max then id else max) start ∧
      ∀ id ∈ ids, id < idMax → start < id →
        id ≤ ids.foldl (fun max id => if id < idMax ∧ id > max then id else max) start := by
  induction ids generalizing start with
  | nil => simp
  | cons id ids ih =>
    simp only [List.foldl_cons, List.mem_cons, forall_eq_or_imp]
    by_cases larger : id < idMax ∧ id > start
    · obtain ⟨le, above⟩ := ih id
      rw [if_pos larger]
      refine ⟨by omega, fun _ _ => le, fun id' mem lt gt => ?_⟩
      by_cases gt' : id < id'
      · exact above id' mem lt gt'
      · omega
    · obtain ⟨le, above⟩ := ih start
      rw [if_neg larger]
      exact ⟨le, fun lt gt => absurd ⟨lt, gt⟩ larger, above⟩

theorem getAvailablePolicyID_fresh (ids : List Nat) (cfgType : TCfgType)
    (found : getAvailablePolicyID ids cfgType ≠ 0) : getAvailablePolicyID ids cfgType ∉ ids := by
  unfold getAvailablePolicyID at found ⊢
  split at found
  next idMax idMin _ =>
  dsimp only at found ⊢
  split at found
  · next below =>
    rw [if_pos below]
    intro mem
    obtain ⟨le, above⟩ := foldl_largest idMax ids (idMin - 1)
    have := above _ mem (by omega) (by omega)
    omega
  · next notBelow =>
    rw [if_neg notBelow]
    generalize smallest : (List.range' idMin (idMax - idMin)).find? _ = r at found ⊢
    cases r with
    | none => exact absurd rfl found
    | some id => simpa using List.find?_some smallest

section Validate

variable {β : Type} (env : InsertEnv β) (scope : String)

@[simp] theorem withDefaultCfgType_id (rr : RESTPolicyRule β) :
    (withDefaultCfgType scope rr).id = rr.id := by
  unfold withDefaultCfgType
  split <;> rfl

theorem acceptRule_ok {v v' : Validated β} {rr : RESTPolicyRule β}
    (ok : acceptRule env scope v rr = .ok v') :
    ∃ rr' : RESTPolicyRule β, rr'.id ∉ v.ids ∧ (rr.id ≠ policyAutoID → rr'.id = rr.id) ∧
      v' = ⟨v.ids ++ [rr'.id], v.rules ++ [some rr'], v.newRules ++ [rr']⟩ := by
  unfold acceptRule at ok
  by_cases auto : rr.id = policyAutoID
  · simp only [auto, if_true, true_and] at ok
    repeat' split at ok
    all_goals try (simp at ok; done)
    -- the only success: a free ID was found
    refine ⟨{ rr with id := getAvailablePolicyID v.ids (apiCfgTypeToTCfgType rr.cfgType) },
      getAvailablePolicyID_fresh _ _ (by assumption), fun notAuto => absurd auto notAuto, ?_⟩
    simpa using ok.symm
  · simp only [auto, if_false, false_and] at ok
    repeat' split at ok
    all_goals try (simp at ok; done)
    -- the only success: the rule's own ID is not in use
    exact ⟨rr, by assumption, fun _ => rfl, by simpa using ok.symm⟩

/-- A rule of the request and the rule the loop leaves in its place: both nil, or a rule that
keeps the ID it gave itself. -/
def Kept : Option (RESTPolicyRule β) → Option (RESTPolicyRule β) → Prop
  | none, none => True
  | some rr, some rr' => rr.id ≠ policyAutoID → rr'.id = rr.id
  | _, _ => False

/-- What the validation loop keeps, with the rules `done` it has passed: the IDs in use are the
stored heads' and then the new rules', with no repetition; the rules it leaves are the new ones
and the nil ones, in the order of `done`. -/
structure Validated.Inv (crhs : List CLUSRuleHead) (done : List (Option (RESTPolicyRule β)))
    (v : Validated β) : Prop where
  ids : v.ids = crhs.map (·.id) ++ v.newRules.map (·.id)
  nodup : v.ids.Nodup
  rules : v.rules.filterMap id = v.newRules
  kept : List.Forall₂ Kept done v.rules

variable {env scope}

theorem Validated.Inv.start {crhs : List CLUSRuleHead} (unique : (crhs.map (·.id)).Nodup) :
    Validated.Inv crhs [] (⟨crhs.map (·.id), [], []⟩ : Validated β) :=
  ⟨by simp, unique, rfl, .nil⟩

theorem Validated.Inv.step {crhs : List CLUSRuleHead} {done : List (Option (RESTPolicyRule β))}
    {v v' : Validated β} {r : Option (RESTPolicyRule β)} (inv : Validated.Inv crhs done v)
    (ok : validateRule env scope v r = .ok v') : Validated.Inv crhs (done ++ [r]) v' := by
  cases r with
  | none =>
    simp only [validateRule, Except.ok.injEq] at ok
    subst ok
    exact ⟨inv.ids, inv.nodup, by simpa using inv.rules, List.rel_append inv.kept (.cons trivial .nil)⟩
  | some rr =>
    obtain ⟨rr', fresh, keeps, rfl⟩ := acceptRule_ok env scope ok
    refine ⟨by simp [inv.ids], ?_, by simpa using inv.rules, List.rel_append inv.kept (.cons ?_ .nil)⟩
    · refine List.nodup_append.mpr ⟨inv.nodup, by simp, fun a mem b same => ?_⟩
      rw [List.mem_singleton.mp same]
      exact fun eq => fresh (eq ▸ mem)
    · intro notAuto
      rw [keeps (by simpa using notAuto), withDefaultCfgType_id]

theorem Validated.Inv.run {crhs : List CLUSRuleHead} (rules : List (Option (RESTPolicyRule β))) :
    ∀ {done : List (Option (RESTPolicyRule β))} {v v' : Validated β}, Validated.Inv crhs done v →
      rules.foldlM (validateRule env scope) v = .ok v' → Validated.Inv crhs (done ++ rules) v' := by
  induction rules with
  | nil =>
    intro done v v' inv ok
    simp only [List.foldlM_nil, List.append_nil] at ok ⊢
    cases ok
    exact inv
  | cons r rules ih =>
    intro done v v' inv ok
    rw [List.foldlM_cons] at ok
    cases first : validateRule env scope v r with
    | error e => simp [first, bind, Except.bind] at ok
    | ok v₁ =>
      simp only [first] at ok
      simpa using ih (inv.step first) ok

end Validate

section Scan

variable (id : Nat) (ruleCfgType : TCfgType)

@[simp] theorem moveScanStep_moveIdx (crh : CLUSRuleHead) (i : Nat) (b : MoveBounds) :
    (moveScanStep id ruleCfgType crh i b).moveIdx = if crh.id = id then (i : Int) else b.moveIdx := by
  unfold moveScanStep
  split <;> split <;> (try split) <;> simp_all

@[simp] theorem moveScanStep_topIdx (crh : CLUSRuleHead) (i : Nat) (b : MoveBounds) :
    (moveScanStep id ruleCfgType crh i b).topIdx =
      b.topIdx + if ruleCfgType ≠ .federalCfg ∧ headZone crh < 2 then 1 else 0 := by
  by_cases same : crh.id = id <;> by_cases fed : ruleCfgType = .federalCfg <;>
    cases kind : crh.cfgType <;> simp [moveScanStep, headZone, zone, same, fed, kind]

@[simp] theorem moveScanStep_bottomIdx (crh : CLUSRuleHead) (i : Nat) (b : MoveBounds) :
    (moveScanStep id ruleCfgType crh i b).bottomIdx =
      b.bottomIdx + if ruleCfgType = .federalCfg ∧ headZone crh < 1 then 1 else 0 := by
  by_cases same : crh.id = id <;> by_cases fed : ruleCfgType = .federalCfg <;>
    cases kind : crh.cfgType <;> simp [moveScanStep, headZone, zone, same, fed, kind]

variable {id ruleCfgType}

theorem moveScan_not_ground {l : List CLUSRuleHead} {i : Nat} {b b' : MoveBounds}
    (ok : moveScan id ruleCfgType l i b = .ok b') : ∀ crh ∈ l, crh.id = id → crh.cfgType ≠ .groundCfg := by
  induction l generalizing i b with
  | nil => simp
  | cons crh l ih =>
    unfold moveScan at ok
    split at ok
    · simp at ok
    next notBase =>
    intro crh' mem same
    rcases List.mem_cons.mp mem with rfl | mem
    · exact fun ground => notBase ⟨same, ground⟩
    · exact ih ok crh' mem same

theorem moveScan_topIdx {l : List CLUSRuleHead} {i : Nat} {b b' : MoveBounds}
    (ok : moveScan id ruleCfgType l i b = .ok b') :
    b'.topIdx = b.topIdx + if ruleCfgType = .federalCfg then 0 else countBelow headZone 2 l := by
  induction l generalizing i b with
  | nil =>
    simp only [moveScan, Except.ok.injEq] at ok
    subst ok
    simp
  | cons crh l ih =>
    unfold moveScan at ok
    split at ok
    · simp at ok
    rw [ih ok, moveScanStep_topIdx, countBelow_cons]
    by_cases fed : ruleCfgType = .federalCfg
    · simp [fed]
    · by_cases low : headZone crh < 2
      · simp only [fed, low, if_true, if_false, ne_eq, not_false_eq_true, and_self]
        omega
      · simp [fed, low]

theorem moveScan_bottomIdx {l : List CLUSRuleHead} {i : Nat} {b b' : MoveBounds}
    (ok : moveScan id ruleCfgType l i b = .ok b') :
    b'.bottomIdx = b.bottomIdx + if ruleCfgType = .federalCfg then countBelow headZone 1 l else 0 := by
  induction l generalizing i b with
  | nil =>
    simp only [moveScan, Except.ok.injEq] at ok
    subst ok
    simp
  | cons crh l ih =>
    unfold moveScan at ok
    split at ok
    · simp at ok
    rw [ih ok, moveScanStep_bottomIdx, countBelow_cons]
    by_cases fed : ruleCfgType = .federalCfg
    · by_cases low : headZone crh < 1
      · simp only [fed, low, if_true, and_self]
        omega
      · simp [fed, low]
    · simp [fed]

theorem moveScan_moveIdx_of_not_mem {l : List CLUSRuleHead} {i : Nat} {b b' : MoveBounds}
    (absent : ∀ crh ∈ l, crh.id ≠ id) (ok : moveScan id ruleCfgType l i b = .ok b') :
    b'.moveIdx = b.moveIdx := by
  induction l generalizing i b with
  | nil =>
    simp only [moveScan, Except.ok.injEq] at ok
    rw [ok]
  | cons crh l ih =>
    unfold moveScan at ok
    split at ok
    · simp at ok
    rw [ih (fun crh' mem => absent crh' (List.mem_cons_of_mem _ mem)) ok, moveScanStep_moveIdx,
      if_neg (absent crh List.mem_cons_self)]

theorem moveScan_moveIdx_of_mem {l : List CLUSRuleHead} {i : Nat} {b b' : MoveBounds}
    (unique : (l.map (·.id)).Nodup) {k : Nat} (lt : k < l.length) (at_k : l[k].id = id)
    (ok : moveScan id ruleCfgType l i b = .ok b') : b'.moveIdx = i + k := by
  induction l generalizing i b k with
  | nil => simp at lt
  | cons crh l ih =>
    unfold moveScan at ok
    split at ok
    · simp at ok
    obtain ⟨notMem, unique'⟩ := List.nodup_cons.mp unique
    cases k with
    | zero =>
      -- the head is the moving item, and no other head has its ID
      have absent : ∀ crh' ∈ l, crh'.id ≠ id := fun crh' mem same =>
        notMem (List.mem_map.mpr ⟨crh', mem, by simp_all⟩)
      rw [moveScan_moveIdx_of_not_mem absent ok, moveScanStep_moveIdx, if_pos (by simpa using at_k)]
      simp
    | succ k =>
      have lt' : k < l.length := by simpa using lt
      have other : crh.id ≠ id := fun same =>
        notMem (List.mem_map.mpr ⟨l[k], List.getElem_mem _, by simp_all⟩)
      rw [ih unique' (by simpa using lt) (by simpa using at_k) ok]
      omega

end Scan

/-! ### The shifting loops -/

section Shift

variable {α : Type} [Inhabited α]

@[simp] theorem length_shiftDown (l : List α) (i n : Nat) : (shiftDown l i n).length = l.length := by
  induction n generalizing l i with
  | zero => rfl
  | succ n ih => simp [shiftDown, ih]

@[simp] theorem length_shiftUp (l : List α) (i n : Nat) : (shiftUp l i n).length = l.length := by
  induction n generalizing l i with
  | zero => rfl
  | succ n ih => simp [shiftUp, ih]

theorem getElem?_shiftDown (l : List α) (i n : Nat) (fits : i + n < l.length) (k : Nat) :
    (shiftDown l i n)[k]? = if i ≤ k ∧ k < i + n then l[k + 1]? else l[k]? := by
  induction n generalizing l i with
  | zero => rw [shiftDown, if_neg (by omega)]
  | succ n ih =>
    have fits' : i + 1 + n < (l.set i (l.getD (i + 1) default)).length := by simp; omega
    have next : l.getD (i + 1) default = l[i + 1] := by
      rw [List.getD_eq_getElem?_getD, List.getElem?_eq_getElem (by omega), Option.getD_some]
    rw [shiftDown, ih _ _ fits', List.getElem?_set, List.getElem?_set]
    by_cases at_i : k = i
    -- the round at `i` wrote `l[i+1]` there
    · subst at_i
      have lt : k < l.length := by omega
      simp only [Nat.not_succ_le_self, false_and, if_false, if_true, lt, next]
      rw [if_pos (by omega), List.getElem?_eq_getElem (by omega)]
    · have ne : i ≠ k := Ne.symm at_i
      by_cases inside : i + 1 ≤ k ∧ k < i + 1 + n
      · rw [if_pos inside, if_neg (by omega), if_pos (by omega)]
      · rw [if_neg inside, if_neg ne, if_neg (by omega)]

theorem getElem?_shiftUp (l : List α) (i n : Nat) (le : n ≤ i) (fits : i < l.length) (k : Nat) :
    (shiftUp l i n)[k]? = if i - n < k ∧ k ≤ i then l[k - 1]? else l[k]? := by
  induction n generalizing l i with
  | zero => rw [shiftUp, if_neg (by omega)]
  | succ n ih =>
    have fits' : i - 1 < (l.set i (l.getD (i - 1) default)).length := by
      rw [List.length_set]
      omega
    have prev : l.getD (i - 1) default = l[i - 1] := by
      rw [List.getD_eq_getElem?_getD, List.getElem?_eq_getElem (by omega), Option.getD_some]
    rw [shiftUp, ih _ _ (by omega) fits', List.getElem?_set, List.getElem?_set]
    by_cases at_i : k = i
    -- the round at `i` wrote `l[i-1]` there
    · subst at_i
      simp only [show ¬ k ≤ k - 1 by omega, and_false, if_false, if_true, fits, prev]
      rw [if_pos (by omega), List.getElem?_eq_getElem (by omega)]
    · have ne : i ≠ k := Ne.symm at_i
      by_cases inside : i - 1 - n < k ∧ k ≤ i - 1
      · rw [if_pos inside, if_neg (by omega), if_pos (by omega)]
      · rw [if_neg inside, if_neg ne, if_neg (by omega)]

theorem shiftDown_set_eq_move (l : List α) {m t : Nat} (lt : m < t) (fits : t < l.length) :
    (shiftDown l m (t - m)).set t (l.getD m default) = move l m t (l.getD m default) := by
  apply List.ext_getElem?
  intro k
  simp only [List.getElem?_set, getElem?_shiftDown _ _ _ (show m + (t - m) < l.length by omega),
    move, List.getElem?_insertIdx, List.getElem?_eraseIdx, length_shiftDown, List.length_eraseIdx]
  -- below `t` the loop has done the erase, at `t` the store the insert, above it nothing changed
  rcases Nat.lt_trichotomy k t with below | rfl | above
  · rw [if_neg (by omega), if_pos below]
    by_cases moved : m ≤ k
    · rw [if_pos ⟨moved, by omega⟩, if_neg (by omega)]
    · rw [if_neg (by omega), if_pos (by omega)]
  · rw [if_pos rfl, if_pos fits, if_neg (Nat.lt_irrefl k), if_pos rfl, if_pos (by split <;> omega)]
  · rw [if_neg (by omega), if_neg (by omega), if_neg (by omega), if_neg (by omega), if_neg (by omega),
      Nat.sub_add_cancel (by omega)]

theorem shiftUp_set_eq_move (l : List α) {m t : Nat} (lt : t < m) (fits : m < l.length) :
    (shiftUp l m (m - t)).set t (l.getD m default) = move l m t (l.getD m default) := by
  apply List.ext_getElem?
  intro k
  simp only [List.getElem?_set, getElem?_shiftUp _ _ _ (Nat.sub_le m t) fits,
    move, List.getElem?_insertIdx, List.getElem?_eraseIdx, length_shiftUp, List.length_eraseIdx,
    Nat.sub_sub_self (Nat.le_of_lt lt)]
  -- below `t` nothing changed, at `t` the store did the insert, above it the loop the erase
  rcases Nat.lt_trichotomy k t with below | rfl | above
  · simp only [show ¬ t = k by omega, show ¬ (t < k ∧ k ≤ m) by omega, below, show k < m by omega,
      if_true, if_false]
  · rw [if_pos rfl, if_pos (by omega), if_neg (Nat.lt_irrefl k), if_pos rfl, if_pos (by split <;> omega)]
  · simp only [show ¬ t = k by omega, show ¬ k < t by omega, show ¬ k = t by omega, if_false]
    by_cases moved : k ≤ m
    · rw [if_pos ⟨above, moved⟩, if_pos (show k - 1 < m by omega)]
    · simp only [show ¬ (t < k ∧ k ≤ m) by omega, show ¬ k - 1 < m by omega, if_false,
        Nat.sub_add_cancel (show 1 ≤ k by omega)]

end Shift

/-- Where a head of type `ruleCfgType` may move: among the federal heads for a federal rule, below
the federal and ground heads for any other. -/
def MoveZone (crhs : List CLUSRuleHead) (ruleCfgType : TCfgType) (j : Nat) : Prop :=
  if ruleCfgType = .federalCfg then j < countBelow headZone 1 crhs
  else countBelow headZone 2 crhs ≤ j ∧ j < crhs.length

theorem MoveZone.lt_length {crhs : List CLUSRuleHead} {ruleCfgType : TCfgType} {j : Nat}
    (zone : MoveZone crhs ruleCfgType j) : j < crhs.length := by
  unfold MoveZone at zone
  split at zone
  · exact Nat.lt_of_lt_of_le zone (countBelow_le_length 1 crhs)
  · exact zone.2

theorem moveScan_zone {crhs : List CLUSRuleHead} {id : Nat} {ruleCfgType : TCfgType}
    {b : MoveBounds} (scan : moveScan id ruleCfgType crhs 0 ⟨-1, 0, -1⟩ = .ok b)
    {mr : CLUSRuleHead} (mem : mr ∈ crhs) (kind : mr.cfgType = ruleCfgType)
    (notGround : ruleCfgType ≠ .groundCfg) :
    b.topIdx ≤ (if b.bottomIdx = -1 then (crhs.length : Int) - 1 else b.bottomIdx) ∧
      ∀ j : Int, b.topIdx ≤ j → j ≤ (if b.bottomIdx = -1 then (crhs.length : Int) - 1 else b.bottomIdx) →
        0 ≤ j ∧ MoveZone crhs ruleCfgType j.toNat := by
  have top := moveScan_topIdx scan
  have bottom := moveScan_bottomIdx scan
  unfold MoveZone
  by_cases fed : ruleCfgType = .federalCfg
  · -- the moving rule is federal itself, so the scan counted at least one federal head
    have some : 0 < countBelow headZone 1 crhs :=
      countBelow_pos mem (by simp [headZone, kind, fed, zone])
    simp only [fed, if_true] at top bottom ⊢
    rw [bottom, if_neg (by omega)]
    exact ⟨by omega, fun j low high => by omega⟩
  · have rest : countBelow headZone 2 crhs < crhs.length :=
      countBelow_lt_length mem (by
        rw [headZone, kind, zone_lt_two_iff]
        exact fun fedOrGround => fedOrGround.elim fed notGround)
    simp only [fed, if_false] at top bottom ⊢
    rw [bottom, if_pos (by omega)]
    exact ⟨by omega, fun j low high => by omega⟩

theorem moveRuleID_ok {crhs crhs' : List CLUSRuleHead} {id : Nat} {ruleCfgType : TCfgType}
    {after : Option Int} (wf : HeadsOK crhs)
    (cfg : ∀ crh ∈ crhs, crh.id = id → crh.cfgType = ruleCfgType)
    (ok : moveRuleID crhs id ruleCfgType after = .ok crhs') :
    ∃ m j mr, crhs[m]? = some mr ∧ mr.id = id ∧ mr.cfgType = ruleCfgType ∧
      ruleCfgType ≠ .groundCfg ∧ MoveZone crhs ruleCfgType j ∧ crhs' = move crhs m j mr := by
  unfold moveRuleID at ok
  split at ok
  · simp at ok
  next b scan =>
  split at ok
  · simp at ok
  next found =>
  -- the scan found the moving item at its index `m`
  have present : ∃ m, ∃ lt : m < crhs.length, crhs[m].id = id := by
    refine Classical.byContradiction fun absent => found ?_
    refine moveScan_moveIdx_of_not_mem (fun crh mem same => absent ?_) scan
    obtain ⟨m, lt, rfl⟩ := List.getElem_of_mem mem
    exact ⟨m, lt, same⟩
  obtain ⟨m, lt, at_m⟩ := present
  have moveIdx : b.moveIdx = m := by simpa using moveScan_moveIdx_of_mem wf.unique lt at_m scan
  have kind : crhs[m].cfgType = ruleCfgType := cfg _ (List.getElem_mem lt) at_m
  have notGround : ruleCfgType ≠ .groundCfg :=
    kind ▸ moveScan_not_ground scan _ (List.getElem_mem lt) at_m
  have mr : crhs.getD m default = crhs[m] := by
    simp [List.getD_eq_getElem?_getD, lt]
  dsimp only at ok
  split at ok
  · simp at ok
  -- the clamped target `j` lies in the zone of the rule
  generalize target : clampIdx (locatePosition crhs after b.moveIdx) b.topIdx
    (if b.bottomIdx = -1 then (crhs.length : Int) - 1 else b.bottomIdx) = j at ok
  obtain ⟨ordered, inZone⟩ := moveScan_zone scan (List.getElem_mem lt) kind notGround
  obtain ⟨low, high⟩ := target ▸ clampIdx_mem (locatePosition crhs after b.moveIdx) ordered
  obtain ⟨nonneg, zone⟩ := inZone j low high
  have fits := zone.lt_length
  refine ⟨m, j.toNat, crhs[m], by simp [lt], at_m, kind, notGround, zone, ?_⟩
  rw [moveIdx] at ok
  -- the three ways the loop ends: no move, down, up
  split at ok
  · next same =>
    simp only [Except.ok.injEq] at ok
    rw [← ok, show j.toNat = m by omega, move_self (by simp [lt])]
  split at ok
  · next down =>
    simp only [Except.ok.injEq, Int.toNat_natCast] at ok
    rw [← ok, show (j - m).toNat = j.toNat - m by omega, ← mr]
    exact shiftDown_set_eq_move crhs (by omega) fits
  · next notSame up =>
    simp only [Except.ok.injEq, Int.toNat_natCast] at ok
    rw [← ok, show (m - j).toNat = m - j.toNat by omega, ← mr]
    exact shiftUp_set_eq_move crhs (by omega) lt

/-! ### What a move and an insert leave -/

/-- What a move of the rule `moveID` may store in place of `crhs`: heads that keep the invariant,
the same heads, and either no change or the named rule alone taken out and put back elsewhere,
with every ground head at its index. -/
structure Moved (crhs : List CLUSRuleHead) (moveID : Nat) (crhs' : List CLUSRuleHead) : Prop where
  wf : HeadsOK crhs'
  perm : crhs'.Perm crhs
  only : crhs' = crhs ∨ ∃ m j mr, crhs[m]? = some mr ∧ mr.id = moveID ∧ crhs' = move crhs m j mr
  ground : ∀ (k : Nat) (crh : CLUSRuleHead), crhs[k]? = some crh → crh.cfgType = .groundCfg → crhs'[k]? = some crh

theorem Moved.refl {crhs : List CLUSRuleHead} (wf : HeadsOK crhs) (moveID : Nat) :
    Moved crhs moveID crhs :=
  ⟨wf, .refl crhs, .inl rfl, fun _ _ at_k _ => at_k⟩

theorem move_ordered {crhs : List CLUSRuleHead} {m j : Nat} (wf : HeadsOK crhs)
    (lt : m < crhs.length) (notGround : crhs[m].cfgType ≠ .groundCfg)
    (inZone : MoveZone crhs crhs[m].cfgType j) :
    (move crhs m j crhs[m]).Pairwise fun a b => headZone a ≤ headZone b := by
  have sorted := wf.ordered.sublist (List.eraseIdx_sublist crhs m)
  have fits : j ≤ (crhs.eraseIdx m).length := by
    have := inZone.lt_length
    simp only [List.length_eraseIdx, lt, if_true]
    omega
  unfold MoveZone at inZone
  split at inZone
  · next fed =>
    -- a federal rule goes among the federal heads, of which it was one
    have fewer : countBelow headZone 1 (crhs.eraseIdx m) + (if headZone crhs[m] < 1 then 1 else 0) =
        countBelow headZone 1 crhs := countBelow_eraseIdx 1 lt
    simp only [headZone, fed, zone, Nat.zero_lt_one, if_true] at fewer
    refine move_pairwise wf.ordered fits (fun a mem => ?_) (fun c _ => by simp [headZone, fed, zone])
    have below := zone_lt_of_mem_take (z := 1) sorted (by omega) mem
    simp only [headZone, fed, zone] at below ⊢
    omega
  · next notFed =>
    -- any other rule goes below the federal and ground heads, and was below them
    have same : countBelow headZone 2 (crhs.eraseIdx m) + (if headZone crhs[m] < 2 then 1 else 0) =
        countBelow headZone 2 crhs := countBelow_eraseIdx 2 lt
    have two : headZone crhs[m] = 2 := by
      cases kind : crhs[m].cfgType <;> simp_all [headZone, zone]
    simp only [two, Nat.lt_irrefl, if_false, Nat.add_zero] at same
    refine move_pairwise wf.ordered fits (fun a _ => two ▸ zone_le_two a.cfgType) (fun c mem => ?_)
    rw [two]
    exact zone_ge_of_mem_drop (z := 2) sorted (by omega) mem

theorem moveRuleID_moved {crhs crhs' : List CLUSRuleHead} {id : Nat} {ruleCfgType : TCfgType}
    {after : Option Int} (wf : HeadsOK crhs)
    (cfg : ∀ crh ∈ crhs, crh.id = id → crh.cfgType = ruleCfgType)
    (ok : moveRuleID crhs id ruleCfgType after = .ok crhs') : Moved crhs id crhs' := by
  obtain ⟨m, j, mr, at_m, named, kind, notGround, inZone, rfl⟩ := moveRuleID_ok wf cfg ok
  obtain ⟨lt, rfl⟩ := List.getElem?_eq_some_iff.mp at_m
  have fits : j ≤ (crhs.eraseIdx m).length := by
    have := inZone.lt_length
    simp only [List.length_eraseIdx, lt, if_true]
    omega
  have perm := move_perm at_m fits
  refine ⟨⟨(perm.map _).nodup_iff.mpr wf.unique, move_ordered wf lt (kind ▸ notGround) (kind ▸ inZone)⟩,
    perm, .inr ⟨m, j, crhs[m], at_m, named, rfl⟩, fun k crh at_k ground => ?_⟩
  obtain ⟨lt_k, rfl⟩ := List.getElem?_eq_some_iff.mp at_k
  rw [← at_k]
  -- a ground head sits after the federal zone and before the rest; the move stays on one side
  have lowK : countBelow headZone 1 crhs ≤ k :=
    count_le_of_zone_ge wf.ordered lt_k (by simp [headZone, ground, zone])
  have highK : k < countBelow headZone 2 crhs :=
    lt_count_of_zone_lt wf.ordered lt_k (by simp [headZone, ground, zone])
  unfold MoveZone at inZone
  split at inZone
  · next fed =>
    have lowM : m < countBelow headZone 1 crhs :=
      lt_count_of_zone_lt wf.ordered lt (by simp [headZone, kind, fed, zone])
    exact getElem?_move_of_gt _ (by omega) (by omega)
  · next notFed =>
    have highM : countBelow headZone 2 crhs ≤ m :=
      count_le_of_zone_ge wf.ordered lt (by
        cases kind' : crhs[m].cfgType <;> simp_all [headZone, zone])
    exact getElem?_move_of_lt _ (by omega) (by omega)

/-- What an outcome `o` of a handler on the stored heads `crhs` promises: after a failure or a
panic the heads are as they were, after a success they have `P`. -/
def Outcome.Keeps (crhs : List CLUSRuleHead) (P : List CLUSRuleHead → Prop) (o : Outcome) : Prop :=
  match o with
  | .ok crhs' => P crhs'
  | _ => o.stored crhs = crhs

theorem Outcome.keeps_of_ok {crhs : List CLUSRuleHead} {P : List CLUSRuleHead → Prop} {o : Outcome}
    (ok : ∀ crhs', o = .ok crhs' → P crhs') : o.Keeps crhs P := by
  cases o with
  | ok crhs' => exact ok crhs' rfl
  | fail msg => rfl
  | panic => rfl

theorem movePolicyRule_moved {crule : Except String TCfgType} {lock : Bool} {put : Option String}
    {crhs crhs' : List CLUSRuleHead} {moveID : Nat} {after : Option Int} (wf : HeadsOK crhs)
    (cache : ∀ t, crule = .ok t → ∀ crh ∈ crhs, crh.id = moveID → crh.cfgType = t)
    (ok : movePolicyRule crule lock put crhs moveID after = .ok crhs') : Moved crhs moveID crhs' := by
  unfold movePolicyRule at ok
  split at ok
  · simp at ok
  next t =>
  split at ok
  · simp at ok
  split at ok
  · simp at ok
  split at ok
  · -- after or before itself: nothing is moved
    simp only [Outcome.ok.injEq] at ok
    exact ok ▸ Moved.refl wf moveID
  split at ok
  · simp at ok
  next moved =>
  split at ok
  · simp at ok
  simp only [Outcome.ok.injEq] at ok
  exact ok ▸ moveRuleID_moved wf (cache t rfl) moved

def scopeZone (scope : String) (crhs : List CLUSRuleHead) : Int × Int :=
  if scope = scopeFed then (0, countBelow headZone 1 crhs)
  else (countBelow headZone 2 crhs, crhs.length)

theorem insertBounds_eq_scopeZone {scope : String} (inScope : scope = scopeFed ∨ scope = scopeLocal)
    (crhs : List CLUSRuleHead) : insertBounds scope crhs = scopeZone scope crhs := by
  rcases inScope with rfl | rfl
  · simp [insertBounds, scopeZone, foldl_insertBoundsStep_fed]
  · simp [insertBounds, scopeZone, foldl_insertBoundsStep_local, scopeFed_ne_scopeLocal.symm]

theorem scopeZone_le {scope : String} (crhs : List CLUSRuleHead) :
    (scopeZone scope crhs).1 ≤ (scopeZone scope crhs).2 := by
  unfold scopeZone
  split
  · simp
  · have within : countBelow headZone 2 crhs ≤ crhs.length := countBelow_le_length 2 crhs
    simpa using within

theorem insertBlock_ordered {crhs news : List CLUSRuleHead} {k : Nat} {t : TCfgType}
    (wf : HeadsOK crhs) (kinds : ∀ crh ∈ news, crh.cfgType = t)
    (before : ∀ a ∈ crhs.take k, headZone a ≤ zone t)
    (after : ∀ c ∈ crhs.drop k, zone t ≤ headZone c) :
    (insertBlock crhs k news).Pairwise fun a b => headZone a ≤ headZone b := by
  refine insertBlock_pairwise wf.ordered ?_ (fun a mem b new => ?_) (fun b new c mem => ?_)
  · exact List.pairwise_of_forall_mem_list fun a new b new' => by
      simp [headZone, kinds a new, kinds b new']
  · simpa [headZone, kinds b new] using before a mem
  · simpa [headZone, kinds b new] using after c mem

theorem insert_in_scopeZone {scope : String} {crhs news : List CLUSRuleHead} {k : Int}
    (wf : HeadsOK crhs) (inside : (scopeZone scope crhs).1 ≤ k ∧ k ≤ (scopeZone scope crhs).2)
    (kinds : ∀ crh ∈ news, crh.cfgType = if scope = scopeFed then .federalCfg else .userCreated) :
    (insertBlock crhs k.toNat news).Pairwise fun a b => headZone a ≤ headZone b := by
  unfold scopeZone at inside
  split at inside
  · next fed =>
    -- federal heads go among the federal ones: all before them are federal
    simp only [fed, if_true] at kinds
    refine insertBlock_ordered wf kinds (fun a mem => ?_) (fun c _ => by simp [zone])
    have below := zone_lt_of_mem_take (z := 1) wf.ordered (by omega) mem
    simp only [zone]
    omega
  · next notFed =>
    -- local heads go after the federal and ground ones: all after them are local too
    simp only [notFed, if_false] at kinds
    refine insertBlock_ordered wf kinds (fun a _ => zone_le_two a.cfgType) (fun c mem => ?_)
    exact zone_ge_of_mem_drop (z := 2) wf.ordered (by omega) mem

/-- A new head for the request's rule `r`: the rule is there, and the head has its ID unless it
asked for an automatic one, and the type `cfgType` of the scope. -/
def NewHead (cfgType : TCfgType) : Option (RESTPolicyRule β) → CLUSRuleHead → Prop
  | some rr, crh => (rr.id ≠ policyAutoID → crh.id = rr.id) ∧ crh.cfgType = cfgType
  | none, _ => False

/-- What an insert of `rules` of `scope`, placed by `after`, may store in place of `crhs`: heads
that keep the invariant, which are `crhs` with one new head for each rule, in the request's
order, inserted at the position `locatePosition` gives clamped into the scope's zone. -/
structure Inserted (scope : String) (crhs : List CLUSRuleHead) (after : Option Int)
    (rules : List (Option (RESTPolicyRule β))) (crhs' : List CLUSRuleHead) : Prop where
  wf : HeadsOK crhs'
  block : ∃ news, List.Forall₂ (NewHead (if scope = scopeFed then .federalCfg else .userCreated))
      rules news ∧
    crhs' = insertBlock crhs (clampIdx (locatePosition crhs after (-1)) (scopeZone scope crhs).1
      (scopeZone scope crhs).2).toNat news

theorem ruleHeads_eq_some {cfgType : TCfgType} :
    ∀ {vs : List (Option (RESTPolicyRule β))} {news : List CLUSRuleHead},
      ruleHeads cfgType vs = some news → news = (vs.filterMap id).map fun rr => ⟨rr.id, cfgType⟩
  | [], news, heads => by simpa [ruleHeads, eq_comm] using heads
  | none :: vs, news, heads => by simp [ruleHeads, List.mapM_cons] at heads
  | some rr :: vs, news, heads => by
    simp only [ruleHeads, List.mapM_cons, Option.map_some, Option.bind_eq_bind, Option.bind_some,
      Option.bind_eq_some_iff, Option.pure_def, Option.some.injEq] at heads
    obtain ⟨rest, made, rfl⟩ := heads
    simp [ruleHeads_eq_some made]

theorem newHeads_of_kept {cfgType : TCfgType} {rules vs : List (Option (RESTPolicyRule β))}
    (kept : List.Forall₂ Kept rules vs) :
    ∀ {news : List CLUSRuleHead}, ruleHeads cfgType vs = some news →
      List.Forall₂ (NewHead cfgType) rules news := by
  induction kept with
  | nil =>
    intro news heads
    obtain rfl : news = [] := by simpa [ruleHeads, eq_comm] using heads
    exact .nil
  | @cons r v rules vs first rest ih =>
    intro news heads
    cases r <;> cases v <;> simp only [Kept] at first
    · simp [ruleHeads, List.mapM_cons] at heads
    · next rr rr' =>
      simp only [ruleHeads, List.mapM_cons, Option.map_some, Option.bind_eq_bind, Option.bind_some,
        Option.bind_eq_some_iff, Option.pure_def, Option.some.injEq] at heads
      obtain ⟨news, made, rfl⟩ := heads
      exact .cons ⟨first, rfl⟩ (ih made)

theorem insertPolicyRule_inserted {env : InsertEnv β} {scope : String}
    {crhs crhs' : List CLUSRuleHead} {after : Option Int} {rules : List (Option (RESTPolicyRule β))}
    (wf : HeadsOK crhs) (inScope : scope = scopeFed ∨ scope = scopeLocal)
    (ok : insertPolicyRule env scope crhs after rules = .ok crhs') :
    Inserted scope crhs after rules crhs' := by
  unfold insertPolicyRule at ok
  split at ok
  · simp at ok
  dsimp only at ok
  split at ok
  · simp at ok
  rw [insertBounds_eq_scopeZone inScope] at ok
  split at ok
  · simp at ok
  next v validated =>
  split at ok
  · simp at ok
  next news heads =>
  split at ok
  · simp at ok
  simp only [Outcome.ok.injEq] at ok
  subst ok
  have inv := Validated.Inv.run rules (Validated.Inv.start wf.unique) validated
  rw [List.nil_append] at inv
  have made := ruleHeads_eq_some heads
  refine ⟨⟨?unique, ?ordered⟩, news, newHeads_of_kept inv.kept heads, rfl⟩
  case unique =>
    -- the IDs are the stored ones and the new rules', which the loop kept apart
    have ids : (crhs ++ news).map (·.id) = v.ids := by
      rw [inv.ids, List.map_append, made, List.map_map, inv.rules]
      rfl
    exact ((insertBlock_perm crhs _ news).map _).nodup_iff.mpr (ids ▸ inv.nodup)
  case ordered =>
    refine insert_in_scopeZone wf (clampIdx_mem _ (scopeZone_le crhs)) fun crh mem => ?_
    simp only [made, List.mem_map] at mem
    obtain ⟨rr, _, rfl⟩ := mem
    rfl

/-- Inserts and moves on heads in zone order with unique IDs: each either fails and leaves the
heads, or stores heads that keep both, an insert with its new heads as one block in the scope's
zone and a move with only the named rule moved and no ground rule. -/
theorem policyRuleHeads_keep_zone_order {β : Type} {crhs : List CLUSRuleHead} (wf : HeadsOK crhs) :
    (∀ (env : InsertEnv β) (scope : String) (after : Option Int)
        (rules : List (Option (RESTPolicyRule β))), scope = scopeFed ∨ scope = scopeLocal →
      (insertPolicyRule env scope crhs after rules).Keeps crhs (Inserted scope crhs after rules)) ∧
    (∀ (crule : Except String TCfgType) (lock : Bool) (put : Option String) (moveID : Nat)
        (after : Option Int), (∀ t, crule = .ok t → ∀ crh ∈ crhs, crh.id = moveID → crh.cfgType = t) →
      (movePolicyRule crule lock put crhs moveID after).Keeps crhs (Moved crhs moveID)) :=
  ⟨fun _ _ _ _ inScope => Outcome.keeps_of_ok fun _ ok => insertPolicyRule_inserted wf inScope ok,
    fun _ _ _ _ _ cache => Outcome.keeps_of_ok fun _ ok => movePolicyRule_moved wf cache ok⟩

theorem policyRuleHeads_keep_zone_order_local :
    HeadsOK [⟨100001, .federalCfg⟩, ⟨120001, .groundCfg⟩, ⟨1, .userCreated⟩, ⟨2, .userCreated⟩] ∧
      ∀ (env : InsertEnv Unit) (after : Option Int) (rules : List (Option (RESTPolicyRule Unit))),
        (insertPolicyRule env scopeLocal
            [⟨100001, .federalCfg⟩, ⟨120001, .groundCfg⟩, ⟨1, .userCreated⟩, ⟨2, .userCreated⟩]
            after rules).Keeps
          [⟨100001, .federalCfg⟩, ⟨120001, .groundCfg⟩, ⟨1, .userCreated⟩, ⟨2, .userCreated⟩]
          (Inserted scopeLocal
            [⟨100001, .federalCfg⟩, ⟨120001, .groundCfg⟩, ⟨1, .userCreated⟩, ⟨2, .userCreated⟩]
            after rules) :=
  have wf : HeadsOK
      [⟨100001, .federalCfg⟩, ⟨120001, .groundCfg⟩, ⟨1, .userCreated⟩, ⟨2, .userCreated⟩] :=
    ⟨by decide, by decide⟩
  ⟨wf, fun env after rules => (policyRuleHeads_keep_zone_order wf).1 env scopeLocal after rules (.inr rfl)⟩

end MicroSegment.Controller
