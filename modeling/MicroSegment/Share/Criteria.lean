import MicroSegment.Lib.AssocFold

/-!
# Group criteria (`share/criteria.go`)

`IsWorkloadSelected` and `IsSvcIpGroupSelected` evaluate each criterion with `isCriterionMet`,
which gives whether it is met and whether it is positive, and group the results by class in the
maps `rets` and `poss`: a class starts with its first entry, and each later entry is and-ed in
while neither it nor the class so far is positive, or-ed in otherwise. The selector selects when
some class was recorded and every class holds. The two functions differ in how an entry is
classified (`workloadEntry`, `svcIpEntry`), so both run one loop, `selectLoop`; the two maps,
always written together, are one association list of (met, positive) pairs filled by
`AssocFold.upsert`.

Go's `regexp` package is outside the repository and is a parameter (`Regexp`). Go strings are
byte strings; the model's strings are character lists, which agree on the ASCII keys and
operators the code compares.
-/

namespace MicroSegment.Share

open AssocFold

def criteriaKeyImage : String := "image"
def criteriaKeyHost : String := "node"
def criteriaKeyWorkload : String := "container"
def criteriaKeyService : String := "service"
def criteriaKeyAddress : String := "address"
def criteriaKeyDomain : String := "domain"
def criteriaKeyNamespace : String := "namespace"

def criteriaOpEqual : String := "="
def criteriaOpNotEqual : String := "!="
def criteriaOpContains : String := "contains"
def criteriaOpPrefix : String := "prefix"
def criteriaOpRegex : String := "regex"
def criteriaOpNotRegex : String := "!regex"

def criteriaValueAny : String := "any"

structure CLUSCriteriaEntry where
  key : String
  value : String
  op : String
  deriving DecidableEq, Repr

/-- The fields of `CLUSWorkload` that criteria read; `labels` is the Go map. -/
structure CLUSWorkload where
  name : String
  hostName : String
  image : String
  service : String
  domain : String
  labels : String → Option String

/-- The namespace labels of `CLUSDomain`. -/
structure CLUSDomain where
  labels : String → Option String

/-- The fields of `CLUSGroup` that membership reads; `none` is a nil `CreaterDomains`. -/
structure CLUSGroup where
  criteria : List CLUSCriteriaEntry
  domain : String
  createrDomains : Option (List String)

/-- Go's `regexp.Compile`: a matcher, or `none` for a pattern that does not compile. -/
structure Regexp where
  compile : String → Option (String → Bool)

/-- `regexp.MatchString`, whose error result the callers drop. -/
def Regexp.matchString (rx : Regexp) (pattern value : String) : Bool :=
  match rx.compile pattern with
  | some matcher => matcher value
  | none => false

def stringsContains (s substr : String) : Bool := decide (substr.toList <:+: s.toList)

def stringsHasPrefix (s pre : String) : Bool := pre.toList.isPrefixOf s.toList

def stringsContainsAny (s chars : String) : Bool := s.toList.any fun c => chars.toList.contains c

/-- `strings.Replace(s, old, new, -1)` for a one-character `old`. -/
def stringsReplaceAll (s : String) (old : Char) (new : String) : String :=
  String.ofList (s.toList.flatMap fun c => if c = old then new.toList else [c])

/-! ### One criterion -/

/-- `EqualMatch`: equality, or the glob with `?` and `*` as a regular expression. -/
def equalMatch (rx : Regexp) (pattern value : String) : Bool :=
  if !stringsContainsAny pattern "?*" then pattern == value
  else
    let re := stringsReplaceAll pattern '.' "\\."
    let re := stringsReplaceAll re '?' "."
    let re := stringsReplaceAll re '*' ".*"
    match rx.compile ("^" ++ re ++ "$") with
    | none => pattern == value
    | some regex => regex value

/-- `isCriterionMet`: whether the criterion is met, and whether it is positive. -/
def isCriterionMet (rx : Regexp) (crt : CLUSCriteriaEntry) (value : String) : Bool × Bool :=
  if crt.op = criteriaOpEqual then
    if crt.value = criteriaValueAny then (true, true) else (equalMatch rx crt.value value, true)
  else if crt.op = criteriaOpNotEqual then (!equalMatch rx crt.value value, false)
  else if crt.op = criteriaOpContains then (stringsContains value crt.value, true)
  else if crt.op = criteriaOpPrefix then (stringsHasPrefix value crt.value, true)
  else if crt.op = criteriaOpRegex then (rx.matchString crt.value value, true)
  else if crt.op = criteriaOpNotRegex then (!rx.matchString crt.value value, false)
  else (false, true)

/-- What the loop body does with one entry: skip it, return false, or record it under a class. -/
inductive EntryClass where
  | skip
  | stop
  | entry (key : String) (met : Bool × Bool)

/-- The `switch` of `IsWorkloadSelected`. Label criteria form the classes `pod-label` and, with a
domain, `ns-label`; a label the workload or namespace lacks is positive and unmet. -/
def workloadEntry (rx : Regexp) (workload : CLUSWorkload) (domain : Option CLUSDomain)
    (crt : CLUSCriteriaEntry) : EntryClass :=
  if crt.key = criteriaKeyImage then .entry crt.key (isCriterionMet rx crt workload.image)
  else if crt.key = criteriaKeyHost then .entry crt.key (isCriterionMet rx crt workload.hostName)
  else if crt.key = criteriaKeyWorkload then .entry crt.key (isCriterionMet rx crt workload.name)
  else if crt.key = criteriaKeyService then .entry crt.key (isCriterionMet rx crt workload.service)
  else if crt.key = criteriaKeyDomain ∨ crt.key = criteriaKeyNamespace then
    .entry crt.key (isCriterionMet rx crt workload.domain)
  else if crt.key = criteriaKeyAddress then .stop
  else if stringsHasPrefix crt.key "ns:" then
    match domain with
    | some d =>
      match d.labels (String.ofList (crt.key.toList.drop 3)) with
      | some v => .entry "ns-label" (isCriterionMet rx crt v)
      | none => .entry "ns-label" (false, true)
    -- without a domain the entry keeps its own key, and stays unmet
    | none => .entry crt.key (false, true)
  else
    match workload.labels crt.key with
    | some v => .entry "pod-label" (isCriterionMet rx crt v)
    | none => .entry "pod-label" (false, true)

/-- The loop body of `IsSvcIpGroupSelected`: only domain and namespace entries count. -/
def svcIpEntry (rx : Regexp) (svcipgroup : CLUSGroup) (crt : CLUSCriteriaEntry) : EntryClass :=
  if crt.key ≠ criteriaKeyDomain ∧ crt.key ≠ criteriaKeyNamespace then .skip
  else .entry crt.key (isCriterionMet rx crt svcipgroup.domain)

def mergeCriterion (acc new : Bool × Bool) : Bool × Bool :=
  (if !new.2 && !acc.2 then acc.1 && new.1 else acc.1 || new.1, acc.2 || new.2)

def allClassesMet (rets : List (String × Bool × Bool)) : Bool :=
  !rets.isEmpty && rets.all fun e => e.2.1

/-- The loop over the selector shared by `IsWorkloadSelected` and `IsSvcIpGroupSelected`. -/
def selectLoop (classify : CLUSCriteriaEntry → EntryClass) :
    List CLUSCriteriaEntry → List (String × Bool × Bool) → Bool
  | [], rets => allClassesMet rets
  | crt :: rest, rets =>
    match classify crt with
    | .skip => selectLoop classify rest rets
    | .stop => false
    | .entry key met => selectLoop classify rest (upsert mergeCriterion rets key met)

def isWorkloadSelected (rx : Regexp) (workload : CLUSWorkload) (selector : List CLUSCriteriaEntry)
    (domain : Option CLUSDomain) : Bool :=
  selectLoop (workloadEntry rx workload domain) selector []

def isSvcIpGroupSelected (rx : Regexp) (svcipgroup : CLUSGroup)
    (selector : List CLUSCriteriaEntry) : Bool :=
  selectLoop (svcIpEntry rx svcipgroup) selector []

/-- The domain check of `IsGroupMember` and `IsSvcIpGroupMember` after selection. -/
def createrDomainsAllow (group : CLUSGroup) (domain : String) : Bool :=
  match group.createrDomains with
  | none => true
  | some ds => ds.any (· == domain)

/-- `IsGroupMember`; `none` is a nil pointer. -/
def isGroupMember (rx : Regexp) (group : Option CLUSGroup) (workload : Option CLUSWorkload)
    (domain : Option CLUSDomain) : Bool :=
  match group, workload with
  | some g, some w => isWorkloadSelected rx w g.criteria domain && createrDomainsAllow g w.domain
  | _, _ => false

def isSvcIpGroupMember (rx : Regexp) (usergroup svcipgroup : Option CLUSGroup) : Bool :=
  match usergroup, svcipgroup with
  | some u, some s => isSvcIpGroupSelected rx s u.criteria && createrDomainsAllow u s.domain
  | _, _ => false

def collectEntries (classify : CLUSCriteriaEntry → EntryClass) :
    List CLUSCriteriaEntry → Option (List (String × Bool × Bool))
  | [] => some []
  | crt :: rest =>
    match classify crt with
    | .skip => collectEntries classify rest
    | .stop => none
    | .entry key met => (collectEntries classify rest).map ((key, met) :: ·)

theorem selectLoop_eq (classify : CLUSCriteriaEntry → EntryClass) (selector : List CLUSCriteriaEntry)
    (rets : List (String × Bool × Bool)) :
    selectLoop classify selector rets =
      match collectEntries classify selector with
      | none => false
      | some ps => allClassesMet (ps.foldl (fun m p => upsert mergeCriterion m p.1 p.2) rets) := by
  induction selector generalizing rets with
  | nil => rfl
  | cons crt rest ih =>
    cases classified : classify crt with
    | skip =>
      simp only [selectLoop, collectEntries, classified]
      exact ih rets
    | stop => simp only [selectLoop, collectEntries, classified]
    | entry key met =>
      simp only [selectLoop, collectEntries, classified, ih]
      cases collectEntries classify rest <;> rfl

theorem selectLoop_nil_eq_true (classify : CLUSCriteriaEntry → EntryClass)
    (selector : List CLUSCriteriaEntry) :
    selectLoop classify selector [] = true ↔
      ∃ ps, collectEntries classify selector = some ps ∧ ps ≠ [] ∧
        ∀ k ∈ ps.map Prod.fst,
          (foldFirst mergeCriterion (valuesOf ps k)).all (fun met => met.1) = true := by
  rw [selectLoop_eq]
  cases collectEntries classify selector with
  | none => simp
  | some ps =>
    have pass : ps.foldl (fun m p => upsert mergeCriterion m p.1 p.2) [] =
        upsertAll mergeCriterion ps := rfl
    simp only [pass, allClassesMet, Bool.and_eq_true, Bool.not_eq_true', List.isEmpty_eq_false_iff,
      ne_eq, upsertAll_eq_nil, all_upsertAll mergeCriterion (fun met => met.1), Option.some.injEq,
      exists_eq_left']

theorem foldl_mergeCriterion_pos (rs : List (Bool × Bool)) (v : Bool) :
    rs.foldl mergeCriterion (v, true) = (v || rs.any Prod.fst, true) := by
  induction rs generalizing v with
  | nil => simp
  | cons r rs ih => simp [mergeCriterion, ih, Bool.or_assoc]

theorem foldl_mergeCriterion_neg (rs : List (Bool × Bool)) (v : Bool) :
    rs.foldl mergeCriterion (v, false) =
      if rs.any Prod.snd then
        ((v && (rs.takeWhile fun r => !r.2).all Prod.fst) ||
          (rs.dropWhile fun r => !r.2).any Prod.fst, true)
      else (v && rs.all Prod.fst, false) := by
  induction rs generalizing v with
  | nil => simp
  | cons r rs ih =>
    obtain ⟨met, positive⟩ := r
    cases positive with
    | false => simp [mergeCriterion, ih, Bool.and_assoc]
    -- the first positive entry: from here on the class is an `or`
    | true => simp [mergeCriterion, foldl_mergeCriterion_pos, Bool.or_assoc]

end MicroSegment.Share
