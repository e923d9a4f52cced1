import MicroSegment.Share.Criteria

/-!
# Group criteria: the documented rule

The comment above `IsWorkloadSelected` states the rule: within a class, `or` when at least one
entry is positive and `and` when all are negative; across classes, `and`. `docClass` and
`criteriaSelected` state it over the entries the loop records. The loop agrees with it when each
class is all negative or starts with a positive entry (`selectLoop_eq_doc`), and never selects
what the rule does not (`selectLoop_le_doc`); the rule does not depend on the order of the
selector (`criteriaSelected_perm`), while the loop and-s the negative entries that come before a
class's first positive one.
-/

namespace MicroSegment.Share

open AssocFold

def docClass (rs : List (Bool × Bool)) : Bool :=
  if rs.any Prod.snd then rs.any Prod.fst else rs.all Prod.fst

def criteriaSelected (classify : CLUSCriteriaEntry → EntryClass)
    (selector : List CLUSCriteriaEntry) : Bool :=
  match collectEntries classify selector with
  | none => false
  | some ps => !ps.isEmpty && (ps.map Prod.fst).all fun k => docClass (valuesOf ps k)

/-- A class whose entries are all negative, or whose first entry is positive. -/
def LeadsPositive (rs : List (Bool × Bool)) : Prop :=
  rs.head?.map Prod.snd = some true ∨ rs.all (fun r => !r.2) = true

theorem any_dropWhile_le {rs : List (Bool × Bool)} {p : Bool × Bool → Bool}
    (found : (rs.dropWhile p).any Prod.fst = true) : rs.any Prod.fst = true := by
  obtain ⟨r, mem, met⟩ := List.any_eq_true.mp found
  exact List.any_eq_true.mpr ⟨r, (List.dropWhile_suffix p).subset mem, met⟩

theorem classMet_le_doc (r : Bool × Bool) (rs : List (Bool × Bool))
    (met : (foldFirst mergeCriterion (r :: rs)).all (fun m => m.1) = true) :
    docClass (r :: rs) = true := by
  obtain ⟨v, positive⟩ := r
  simp only [foldFirst, Option.all_some] at met
  cases positive with
  | true =>
    rw [foldl_mergeCriterion_pos] at met
    simpa [docClass] using met
  | false =>
    rw [foldl_mergeCriterion_neg] at met
    by_cases later : rs.any Prod.snd
    · -- a later positive entry: the documented rule is the `or` of the whole class
      simp only [later, if_true, Bool.or_eq_true, Bool.and_eq_true] at met
      simp only [docClass, List.any_cons, later, Bool.false_or, if_true, Bool.or_eq_true]
      rcases met with ⟨first, -⟩ | found
      · exact .inl first
      · exact .inr (any_dropWhile_le found)
    · simp only [later, Bool.false_eq_true, if_false] at met
      simpa [docClass, later] using met

theorem classMet_eq_doc (r : Bool × Bool) (rs : List (Bool × Bool))
    (leads : LeadsPositive (r :: rs)) :
    (foldFirst mergeCriterion (r :: rs)).map (fun m => m.1) = some (docClass (r :: rs)) := by
  obtain ⟨v, positive⟩ := r
  simp only [foldFirst, Option.map_some, Option.some.injEq]
  rcases leads with first | negative
  · simp only [List.head?_cons, Option.map_some, Option.some.injEq] at first
    subst first
    simp [foldl_mergeCriterion_pos, docClass]
  · simp only [List.all_cons, Bool.and_eq_true, Bool.not_eq_true'] at negative
    obtain ⟨rfl, rest⟩ := negative
    have none : rs.any Prod.snd = false := by
      simpa [List.all_eq_true, List.any_eq_false] using rest
    simp [foldl_mergeCriterion_neg, docClass, none]

theorem criteriaSelected_eq_true (classify : CLUSCriteriaEntry → EntryClass)
    (selector : List CLUSCriteriaEntry) :
    criteriaSelected classify selector = true ↔
      ∃ ps, collectEntries classify selector = some ps ∧ ps ≠ [] ∧
        ∀ k ∈ ps.map Prod.fst, docClass (valuesOf ps k) = true := by
  unfold criteriaSelected
  cases collectEntries classify selector with
  | none => simp
  | some ps =>
    simp only [Bool.and_eq_true, Bool.not_eq_true', List.isEmpty_eq_false_iff, ne_eq,
      List.all_eq_true, Option.some.injEq, exists_eq_left']

/-- A selector the loop accepts satisfies the documented rule. -/
theorem selectLoop_le_doc (classify : CLUSCriteriaEntry → EntryClass)
    (selector : List CLUSCriteriaEntry) (selected : selectLoop classify selector [] = true) :
    criteriaSelected classify selector = true := by
  obtain ⟨ps, collected, nonempty, classes⟩ := (selectLoop_nil_eq_true classify selector).mp selected
  refine (criteriaSelected_eq_true classify selector).mpr ⟨ps, collected, nonempty, fun k key => ?_⟩
  obtain ⟨r, rs, split⟩ := List.exists_cons_of_ne_nil (valuesOf_ne_nil key)
  rw [split]
  exact classMet_le_doc r rs (split ▸ classes k key)

/-- The loop follows the documented rule when each class is all negative or starts with a
positive entry. -/
theorem selectLoop_eq_doc (classify : CLUSCriteriaEntry → EntryClass)
    (selector : List CLUSCriteriaEntry)
    (leads : ∀ ps, collectEntries classify selector = some ps →
      ∀ k ∈ ps.map Prod.fst, LeadsPositive (valuesOf ps k)) :
    selectLoop classify selector [] = criteriaSelected classify selector := by
  rw [Bool.eq_iff_iff, selectLoop_nil_eq_true, criteriaSelected_eq_true]
  refine exists_congr fun ps => and_congr_right fun collected => and_congr_right fun _ => ?_
  refine forall₂_congr fun k key => ?_
  obtain ⟨r, rs, split⟩ := List.exists_cons_of_ne_nil (valuesOf_ne_nil key)
  have same := classMet_eq_doc r rs (split ▸ leads ps collected k key)
  rw [split]
  cases folded : foldFirst mergeCriterion (r :: rs) with
  | none => simp [folded] at same
  | some m =>
    simp only [folded, Option.map_some, Option.some.injEq] at same
    simp [same]

theorem collectEntries_perm (classify : CLUSCriteriaEntry → EntryClass)
    {selector selector' : List CLUSCriteriaEntry} (perm : selector.Perm selector') :
    Option.Rel List.Perm (collectEntries classify selector) (collectEntries classify selector') := by
  induction perm with
  | nil => exact .some (List.Perm.refl [])
  | @cons crt rest rest' _ ih =>
    simp only [collectEntries]
    cases classify crt with
    | skip => exact ih
    | stop => exact .none
    | entry key met =>
      generalize collectEntries classify rest = found at ih ⊢
      generalize collectEntries classify rest' = found' at ih ⊢
      cases ih with
      | some same => exact .some (same.cons _)
      | none => exact .none
  | swap crt crt' rest =>
    simp only [collectEntries]
    -- two entries recorded in the other order give the same entries up to a swap
    cases classify crt <;> cases classify crt' <;>
      cases collectEntries classify rest <;> simp [List.Perm.swap]
  | @trans first middle last _ _ ih ih' =>
    generalize collectEntries classify first = found at ih ⊢
    generalize collectEntries classify middle = found' at ih ih'
    generalize collectEntries classify last = found'' at ih' ⊢
    cases ih with
    | some same =>
      cases ih' with
      | some same' => exact .some (same.trans same')
    | none =>
      cases ih'
      exact .none

theorem docClass_perm {rs rs' : List (Bool × Bool)} (perm : rs.Perm rs') :
    docClass rs = docClass rs' := by
  simp only [docClass, perm.any_eq, perm.all_eq]

theorem valuesOf_perm {ps ps' : List (String × Bool × Bool)} (perm : ps.Perm ps') (k : String) :
    (valuesOf ps k).Perm (valuesOf ps' k) :=
  (perm.filter _).map _

/-- Permuting the selector does not change what the documented rule selects. -/
theorem criteriaSelected_perm (classify : CLUSCriteriaEntry → EntryClass)
    {selector selector' : List CLUSCriteriaEntry} (perm : selector.Perm selector') :
    criteriaSelected classify selector = criteriaSelected classify selector' := by
  unfold criteriaSelected
  have rel := collectEntries_perm classify perm
  generalize collectEntries classify selector = found at rel ⊢
  generalize collectEntries classify selector' = found' at rel ⊢
  cases rel with
  | none => rfl
  | @some ps ps' same =>
    have keys : (ps.map Prod.fst).all (fun k => docClass (valuesOf ps k)) =
        (ps'.map Prod.fst).all (fun k => docClass (valuesOf ps' k)) := by
      rw [(same.map Prod.fst).all_eq]
      simp only [docClass_perm (valuesOf_perm same _)]
    simp only [keys, same.isEmpty_eq]

/-! ### The two selectors -/

theorem isWorkloadSelected_le_doc (rx : Regexp) (workload : CLUSWorkload)
    (selector : List CLUSCriteriaEntry) (domain : Option CLUSDomain)
    (selected : isWorkloadSelected rx workload selector domain = true) :
    criteriaSelected (workloadEntry rx workload domain) selector = true :=
  selectLoop_le_doc _ selector selected

theorem isSvcIpGroupSelected_le_doc (rx : Regexp) (svcipgroup : CLUSGroup)
    (selector : List CLUSCriteriaEntry) (selected : isSvcIpGroupSelected rx svcipgroup selector = true) :
    criteriaSelected (svcIpEntry rx svcipgroup) selector = true :=
  selectLoop_le_doc _ selector selected

def imageWorkload (image : String) : CLUSWorkload := ⟨"", "", image, "", "", fun _ => none⟩

def negativeFirstSelector : List CLUSCriteriaEntry :=
  [⟨criteriaKeyImage, "a", criteriaOpNotEqual⟩, ⟨criteriaKeyImage, "b", criteriaOpNotEqual⟩,
   ⟨criteriaKeyImage, "c", criteriaOpEqual⟩]

def positiveFirstSelector : List CLUSCriteriaEntry :=
  [⟨criteriaKeyImage, "c", criteriaOpEqual⟩, ⟨criteriaKeyImage, "a", criteriaOpNotEqual⟩,
   ⟨criteriaKeyImage, "b", criteriaOpNotEqual⟩]

/-- Image `b`: the documented rule selects it, since `image != a` is met and the class has a
positive entry; `IsWorkloadSelected` and-s the two negative entries before it meets the positive
one and does not, but selects it once the positive entry comes first. `IsSvcIpGroupSelected`
does the same with domain criteria. -/
theorem isWorkloadSelected_negative_first (rx : Regexp) :
    isWorkloadSelected rx (imageWorkload "b") negativeFirstSelector none = false ∧
      criteriaSelected (workloadEntry rx (imageWorkload "b") none) negativeFirstSelector = true ∧
      isWorkloadSelected rx (imageWorkload "b") positiveFirstSelector none = true ∧
      isSvcIpGroupSelected rx ⟨[], "b", none⟩
        (negativeFirstSelector.map fun crt => { crt with key := criteriaKeyDomain }) = false ∧
      isSvcIpGroupSelected rx ⟨[], "b", none⟩
        (positiveFirstSelector.map fun crt => { crt with key := criteriaKeyDomain }) = true :=
  ⟨rfl, rfl, rfl, rfl, rfl⟩

end MicroSegment.Share
