import Mathlib

/-!
# Moving and inserting list elements

An element taken out of a list at `i` and put back at `j` (`move`), and a block inserted at `k`
(`insertBlock`): both are permutations of what they rearrange, a move leaves every index outside
`i..j` alone and the list without the moved element as it was, and either keeps a list sorted when
the new elements fit at their position.

A list sorted by a key `zone` into `Nat` holds its elements of zone below `z` first: the indices
below their number have zone below `z` and the others not (`zone_lt_of_lt_count`,
`zone_ge_of_count_le`).
-/

namespace ListMove

variable {α : Type _}

def move (l : List α) (i j : Nat) (x : α) : List α := (l.eraseIdx i).insertIdx j x

def insertBlock (l : List α) (k : Nat) (news : List α) : List α := l.take k ++ news ++ l.drop k

theorem insertIdx_eq_take_append_drop (l : List α) {i : Nat} (x : α) (le : i ≤ l.length) :
    l.insertIdx i x = l.take i ++ x :: l.drop i := by
  induction l generalizing i with
  | nil =>
    obtain rfl : i = 0 := by simpa using le
    rfl
  | cons a l ih =>
    cases i with
    | zero => rfl
    | succ i =>
      have le' : i ≤ l.length := by simpa using le
      simp [List.insertIdx_succ_cons, ih le']

theorem move_eq_insertBlock (l : List α) {i j : Nat} (x : α) (le : j ≤ (l.eraseIdx i).length) :
    move l i j x = insertBlock (l.eraseIdx i) j [x] := by
  simp [move, insertBlock, insertIdx_eq_take_append_drop _ _ le]

theorem insertBlock_perm (l : List α) (k : Nat) (news : List α) :
    (insertBlock l k news).Perm (l ++ news) := by
  have reassoc : insertBlock l k news = l.take k ++ (news ++ l.drop k) := by simp [insertBlock]
  have swap : (l.take k ++ (news ++ l.drop k)).Perm (l.take k ++ (l.drop k ++ news)) :=
    List.Perm.append_left _ List.perm_append_comm
  rw [reassoc, ← List.take_append_drop k l, List.append_assoc]
  simpa only [List.take_append_drop] using swap

theorem move_perm {l : List α} {i j : Nat} {x : α} (at_i : l[i]? = some x)
    (le : j ≤ (l.eraseIdx i).length) : (move l i j x).Perm l := by
  obtain ⟨lt, rfl⟩ := List.getElem?_eq_some_iff.mp at_i
  have back : (l.eraseIdx i).insertIdx i l[i] = l := List.insertIdx_eraseIdx_getElem lt
  have le_i : i ≤ (l.eraseIdx i).length := by simp [List.length_eraseIdx, lt]; omega
  -- both `move` and the list are the element in front of the rest
  have toFront : (move l i j l[i]).Perm (l[i] :: l.eraseIdx i) := List.perm_insertIdx _ _ le
  have fromFront : ((l.eraseIdx i).insertIdx i l[i]).Perm (l[i] :: l.eraseIdx i) :=
    List.perm_insertIdx _ _ le_i
  rw [back] at fromFront
  exact toFront.trans fromFront.symm

theorem move_self {l : List α} {i : Nat} {x : α} (at_i : l[i]? = some x) : move l i i x = l := by
  obtain ⟨lt, rfl⟩ := List.getElem?_eq_some_iff.mp at_i
  exact List.insertIdx_eraseIdx_getElem lt

theorem getElem?_move_of_lt {l : List α} {i j m : Nat} (x : α) (lt_i : m < i) (lt_j : m < j) :
    (move l i j x)[m]? = l[m]? := by
  rw [move, List.getElem?_insertIdx_of_lt lt_j, List.getElem?_eraseIdx_of_lt lt_i]

theorem getElem?_move_of_gt {l : List α} {i j m : Nat} (x : α) (gt_i : i < m) (gt_j : j < m) :
    (move l i j x)[m]? = l[m]? := by
  obtain ⟨m, rfl⟩ : ∃ m', m = m' + 1 := ⟨m - 1, by omega⟩
  rw [move, List.getElem?_insertIdx_of_gt gt_j, Nat.add_sub_cancel,
    List.getElem?_eraseIdx_of_ge (by omega)]

/-! ### Sorted lists -/

section Sorted

variable {r : α → α → Prop}

theorem insertBlock_pairwise {l news : List α} {k : Nat} (sorted : l.Pairwise r)
    (sortedNews : news.Pairwise r) (before : ∀ a ∈ l.take k, ∀ b ∈ news, r a b)
    (after : ∀ b ∈ news, ∀ c ∈ l.drop k, r b c) : (insertBlock l k news).Pairwise r := by
  have split : (l.take k ++ l.drop k).Pairwise r := by rwa [List.take_append_drop]
  obtain ⟨sortedTake, sortedDrop, across⟩ := List.pairwise_append.mp split
  simp only [insertBlock, List.pairwise_append, List.mem_append]
  refine ⟨⟨sortedTake, sortedNews, before⟩, sortedDrop, ?_⟩
  rintro a (inTake | inNews) c inDrop
  · exact across a inTake c inDrop
  · exact after a inNews c inDrop

theorem move_pairwise {l : List α} {i j : Nat} {x : α} (sorted : l.Pairwise r)
    (le : j ≤ (l.eraseIdx i).length) (before : ∀ a ∈ (l.eraseIdx i).take j, r a x)
    (after : ∀ c ∈ (l.eraseIdx i).drop j, r x c) : (move l i j x).Pairwise r := by
  rw [move_eq_insertBlock _ _ le]
  refine insertBlock_pairwise (sorted.sublist (List.eraseIdx_sublist l i)) (List.pairwise_singleton r x)
    (fun a mem b b_mem => ?_) (fun b b_mem c mem => ?_)
  · rw [List.mem_singleton.mp b_mem]
    exact before a mem
  · rw [List.mem_singleton.mp b_mem]
    exact after c mem

end Sorted

section Zones

variable (zone : α → Nat)

def countBelow (z : Nat) (l : List α) : Nat := (l.filter fun a => zone a < z).length

variable {zone}

@[simp] theorem countBelow_nil (z : Nat) : countBelow zone z ([] : List α) = 0 := rfl

theorem countBelow_cons (z : Nat) (a : α) (l : List α) :
    countBelow zone z (a :: l) = countBelow zone z l + if zone a < z then 1 else 0 := by
  by_cases below : zone a < z <;> simp [countBelow, below]

theorem countBelow_le_length (z : Nat) (l : List α) : countBelow zone z l ≤ l.length :=
  List.length_filter_le _ _

theorem countBelow_eraseIdx (z : Nat) {l : List α} {i : Nat} (lt : i < l.length) :
    countBelow zone z (l.eraseIdx i) + (if zone l[i] < z then 1 else 0) = countBelow zone z l := by
  have perm := (List.getElem_cons_eraseIdx_perm lt).filter (fun a => decide (zone a < z))
  have count := perm.length_eq
  rw [← countBelow_cons]
  exact count

theorem countBelow_pos {z : Nat} {l : List α} {a : α} (mem : a ∈ l) (below : zone a < z) :
    0 < countBelow zone z l :=
  List.length_pos_of_mem (List.mem_filter.mpr ⟨mem, by simpa using below⟩)

theorem countBelow_lt_length {z : Nat} {l : List α} {a : α} (mem : a ∈ l) (notBelow : ¬ zone a < z) :
    countBelow zone z l < l.length :=
  List.length_filter_lt_length_iff_exists.mpr ⟨a, mem, by simpa using notBelow⟩

theorem countBelow_eq_zero {z : Nat} {l : List α} (above : ∀ a ∈ l, z ≤ zone a) :
    countBelow zone z l = 0 := by
  simp only [countBelow, List.length_eq_zero_iff, List.filter_eq_nil_iff, decide_eq_true_eq, Nat.not_lt]
  exact above

theorem zone_lt_of_lt_count {z : Nat} {l : List α} (sorted : l.Pairwise (zone · ≤ zone ·))
    {m : Nat} (lt : m < countBelow zone z l) (lt_len : m < l.length) : zone l[m] < z := by
  induction l generalizing m with
  | nil => simp at lt_len
  | cons a l ih =>
    obtain ⟨first, rest⟩ := List.pairwise_cons.mp sorted
    by_cases below : zone a < z
    · cases m with
      | zero => simpa using below
      | succ m =>
        have lt' : m < countBelow zone z l := by
          simp only [countBelow, List.filter_cons, below, decide_true, if_true, List.length_cons] at lt
          exact Nat.lt_of_succ_lt_succ lt
        exact ih rest lt' (by simpa using lt_len)
    -- the first element is not below `z`, so neither is any other
    · have none : countBelow zone z (a :: l) = 0 :=
        countBelow_eq_zero fun b mem => by
          rcases List.mem_cons.mp mem with rfl | mem
          · omega
          · exact Nat.le_trans (by omega) (first b mem)
      omega

theorem zone_ge_of_count_le {z : Nat} {l : List α} (sorted : l.Pairwise (zone · ≤ zone ·))
    {m : Nat} (le : countBelow zone z l ≤ m) (lt_len : m < l.length) : z ≤ zone l[m] := by
  induction l generalizing m with
  | nil => simp at lt_len
  | cons a l ih =>
    obtain ⟨first, rest⟩ := List.pairwise_cons.mp sorted
    by_cases below : zone a < z
    · have le' : countBelow zone z l + 1 ≤ m := by
        simpa [countBelow, List.filter_cons, below] using le
      obtain ⟨m, rfl⟩ : ∃ m', m = m' + 1 := ⟨m - 1, by omega⟩
      exact ih rest (by omega) (by simpa using lt_len)
    · cases m with
      | zero => simpa using below
      | succ m => exact Nat.le_trans (by omega) (first _ (List.getElem_mem _))

theorem lt_count_of_zone_lt {z : Nat} {l : List α} (sorted : l.Pairwise (zone · ≤ zone ·))
    {m : Nat} (lt_len : m < l.length) (below : zone l[m] < z) : m < countBelow zone z l :=
  Nat.lt_of_not_le fun le => Nat.not_lt.mpr (zone_ge_of_count_le sorted le lt_len) below

theorem count_le_of_zone_ge {z : Nat} {l : List α} (sorted : l.Pairwise (zone · ≤ zone ·))
    {m : Nat} (lt_len : m < l.length) (above : z ≤ zone l[m]) : countBelow zone z l ≤ m :=
  Nat.le_of_not_lt fun lt => Nat.not_lt.mpr above (zone_lt_of_lt_count sorted lt lt_len)

theorem zone_lt_of_mem_take {z : Nat} {l : List α} (sorted : l.Pairwise (zone · ≤ zone ·))
    {k : Nat} (le : k ≤ countBelow zone z l) {a : α} (mem : a ∈ l.take k) : zone a < z := by
  obtain ⟨i, lt, rfl⟩ := List.mem_take_iff_getElem.mp mem
  exact zone_lt_of_lt_count sorted (by omega) (by omega)

theorem zone_ge_of_mem_drop {z : Nat} {l : List α} (sorted : l.Pairwise (zone · ≤ zone ·))
    {k : Nat} (le : countBelow zone z l ≤ k) {a : α} (mem : a ∈ l.drop k) : z ≤ zone a := by
  obtain ⟨i, lt, rfl⟩ := List.mem_drop_iff_getElem.mp mem
  exact zone_ge_of_count_le (m := k + i) sorted (by omega) (by omega)

end Zones

end ListMove
