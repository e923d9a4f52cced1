import Mathlib

/-!
# Dealing a list round-robin onto piles, and placing the piles back

`deal n xs` puts the element at index `idx` of `xs` at the end of pile `idx % n`, so element `k`
of pile `i` is `xs[n * k + i]` (`deal_pile`). `placeAll n get acc` writes element `k` of pile `i`
at index `n * k + i` of `acc`, failing on an index out of range. Placing the piles of `deal n xs`
into a list as long as `xs` gives `xs` back (`placeAll_deal`), and the piles hold the elements
of `xs` (`deal_flatten_perm`).
-/

namespace RoundRobin

variable {α : Type _}

theorem eq_mul_add_iff {n i k t : Nat} (lt : i < n) : t = n * k + i ↔ t % n = i ∧ t / n = k := by
  have pos : 0 < n := by omega
  constructor
  · rintro rfl
    rw [Nat.mul_add_mod, Nat.mod_eq_of_lt lt, Nat.mul_add_div pos, Nat.div_eq_of_lt lt]
    exact ⟨rfl, rfl⟩
  · rintro ⟨rfl, rfl⟩
    exact (Nat.div_add_mod t n).symm

theorem mul_add_lt_iff {n i k L : Nat} (lt : i < n) :
    n * k + i < L ↔ k < L / n ∨ k = L / n ∧ i < L % n := by
  have split := Nat.div_add_mod L n
  have below := Nat.mod_lt L (show 0 < n by omega)
  rcases lt_trichotomy k (L / n) with fewer | rfl | more
  · have : n * k + n ≤ n * (L / n) := by nlinarith
    omega
  · omega
  · have : n * (L / n) + n ≤ n * k := by nlinarith
    omega

theorem length_eq_of_getElem? {l : List α} {m : Nat} (defined : ∀ k, l[k]? ≠ none ↔ k < m) :
    l.length = m := by
  have below : ∀ k, k < l.length ↔ k < m := fun k => by
    rw [← defined k, ne_eq, List.getElem?_eq_none_iff, Nat.not_le]
  rcases Nat.lt_trichotomy l.length m with shorter | same | longer
  · exact absurd ((below _).mpr shorter) (Nat.lt_irrefl _)
  · exact same
  · exact absurd ((below _).mp longer) (Nat.lt_irrefl _)

/-! ### Dealing -/

def deal (n : Nat) (xs : List α) : List (List α) :=
  xs.zipIdx.foldl (fun piles p => piles.modify (p.2 % n) (· ++ [p.1])) (List.replicate n [])

theorem deal_concat (n : Nat) (xs : List α) (x : α) :
    deal n (xs ++ [x]) = (deal n xs).modify (xs.length % n) (· ++ [x]) := by
  simp [deal, List.zipIdx_append]

@[simp] theorem length_deal (n : Nat) (xs : List α) : (deal n xs).length = n := by
  induction xs using List.reverseRecOn with
  | nil => simp [deal]
  | append_singleton xs x ih => rw [deal_concat, List.length_modify, ih]

/-- Element `k` of pile `i` is `xs[n * k + i]`. By induction on `xs` from the end: the last
element extends pile `xs.length % n`, whose length is `xs.length / n` before it. -/
theorem deal_pile {n i : Nat} (lt : i < n) (xs : List α) (k : Nat) :
    ((deal n xs)[i]?.getD [])[k]? = xs[n * k + i]? := by
  induction xs using List.reverseRecOn generalizing k with
  | nil => simp [deal, lt]
  | append_singleton xs x ih =>
    have bound : i < (deal n xs).length := by rw [length_deal]; exact lt
    have found : (deal n xs)[i]? = some (deal n xs)[i] := List.getElem?_eq_getElem bound
    rw [found, Option.getD_some] at ih
    rw [deal_concat, List.getElem?_modify, found]
    simp only [Option.map_eq_map, Option.map_some, Option.getD_some]
    by_cases last : xs.length % n = i
    · -- pile `i` takes `x`: it held the `xs.length / n` earlier elements of residue `i`
      have size : (deal n xs)[i].length = xs.length / n := by
        refine length_eq_of_getElem? fun k' => ?_
        rw [ih, ne_eq, List.getElem?_eq_none_iff, Nat.not_le, mul_add_lt_iff lt, ← last]
        simp
      rw [if_pos last, List.getElem?_append, List.getElem?_append, size, ih]
      rcases lt_trichotomy k (xs.length / n) with fewer | rfl | more
      · have inside : n * k + i < xs.length := (mul_add_lt_iff lt).mpr (.inl fewer)
        simp [fewer, inside]
      · have at_end : n * (xs.length / n) + i = xs.length := by
          rw [← last]
          exact Nat.div_add_mod _ _
        simp [at_end]
      · have beyond : xs.length < n * k + i := by
          have : n * (xs.length / n) + n ≤ n * k := by nlinarith
          have := Nat.div_add_mod xs.length n
          omega
        have after : ¬ n * k + i < xs.length := by omega
        simp only [Nat.not_lt.mpr (Nat.le_of_lt more), if_false, after]
        rw [List.getElem?_eq_none (by simp; omega), List.getElem?_eq_none (by simp; omega)]
    · -- pile `i` is unchanged, and `xs.length` is not of residue `i`
      rw [if_neg last, ih]
      have other : n * k + i ≠ xs.length := fun same =>
        last ((eq_mul_add_iff lt).mp same.symm).1
      rcases Nat.lt_or_gt_of_ne other with inside | beyond
      · rw [List.getElem?_append_left inside]
      · rw [List.getElem?_eq_none (by omega), List.getElem?_eq_none (by simp; omega)]

theorem flatten_modify_concat_perm (piles : List (List α)) {k : Nat} (lt : k < piles.length)
    (x : α) : (piles.modify k (· ++ [x])).flatten.Perm (piles.flatten ++ [x]) := by
  induction piles generalizing k with
  | nil => simp at lt
  | cons pile piles ih =>
    cases k with
    | zero =>
      simp only [List.modify_zero_cons, List.flatten_cons, List.append_assoc]
      exact List.Perm.append_left pile (List.perm_append_comm)
    | succ k =>
      simp only [List.modify_succ_cons, List.flatten_cons, List.append_assoc]
      exact List.Perm.append_left pile (ih (by simpa using lt))

/-- The piles hold the elements of `xs`. -/
theorem deal_flatten_perm {n : Nat} (pos : 0 < n) (xs : List α) : (deal n xs).flatten.Perm xs := by
  induction xs using List.reverseRecOn with
  | nil => simp [deal]
  | append_singleton xs x ih =>
    rw [deal_concat]
    exact (flatten_modify_concat_perm _ (by simpa using Nat.mod_lt _ pos) x).trans
      (ih.append_right [x])

def placePile (n i : Nat) : Nat → List α → List α → Option (List α)
  | _, [], acc => some acc
  | idx, x :: pile, acc =>
    if n * idx + i < acc.length then placePile n i (idx + 1) pile (acc.set (n * idx + i) x)
    else none

def placeAll (n : Nat) (get : Nat → Option (List α)) (acc : List α) : Option (List α) :=
  (List.range n).foldlM (fun acc i =>
    match get i with
    | none => some acc
    | some pile => placePile n i 0 pile acc) acc

theorem placePile_fill {n i : Nat} (lt : i < n) {xs : List α} (pile : List α) (idx : Nat)
    (dealt : ∀ k, pile[k]? = xs[n * (idx + k) + i]?) (acc : List α) (size : acc.length = xs.length) :
    ∃ acc', placePile n i idx pile acc = some acc' ∧ acc'.length = acc.length ∧
      ∀ t, acc'[t]? = if t % n = i ∧ idx ≤ t / n then xs[t]? else acc[t]? := by
  induction pile generalizing idx acc with
  | nil =>
    -- no element of residue `i` is left from `n * idx + i` on
    have beyond : xs.length ≤ n * idx + i := by
      have := dealt 0
      rw [List.getElem?_nil, Nat.add_zero, eq_comm, List.getElem?_eq_none_iff] at this
      exact this
    refine ⟨acc, rfl, rfl, fun t => ?_⟩
    split
    · rename_i later
      have : n * idx ≤ n * (t / n) := Nat.mul_le_mul_left n later.2
      have := Nat.div_add_mod t n
      rw [List.getElem?_eq_none (by omega), List.getElem?_eq_none (by omega)]
    · rfl
  | cons x pile ih =>
    have first := dealt 0
    rw [List.getElem?_cons_zero, Nat.add_zero, eq_comm, List.getElem?_eq_some_iff] at first
    obtain ⟨inside, atIdx⟩ := first
    obtain ⟨acc', placed, length, filled⟩ :=
      ih (idx + 1) (fun k => by
        have next := dealt (k + 1)
        rw [List.getElem?_cons_succ] at next
        rw [next, show idx + (k + 1) = idx + 1 + k by omega])
        (acc.set (n * idx + i) x) (by rw [List.length_set, size])
    refine ⟨acc', ?_, by rw [length, List.length_set], fun t => ?_⟩
    · rw [placePile, if_pos (size ▸ inside)]
      exact placed
    · rw [filled t, List.getElem?_set]
      by_cases here : n * idx + i = t
      · have ⟨residue, quotient⟩ := (eq_mul_add_iff lt).mp here.symm
        subst here
        simp [residue, quotient, size, inside, atIdx]
      · have other : ¬ (t % n = i ∧ t / n = idx) := fun ⟨r, q⟩ =>
          here ((eq_mul_add_iff lt).mpr ⟨r, q⟩).symm
        have same : (t % n = i ∧ idx + 1 ≤ t / n) ↔ (t % n = i ∧ idx ≤ t / n) := by omega
        simp only [here, if_false, same]

theorem placeAll_fill {n : Nat} {get : Nat → Option (List α)} {xs : List α}
    (dealt : ∀ i < n, ∃ pile, get i = some pile ∧ ∀ k, pile[k]? = xs[n * k + i]?)
    (acc : List α) (size : acc.length = xs.length) {m : Nat} (le : m ≤ n) :
    ∃ acc', (List.range m).foldlM (fun acc i =>
        match get i with
        | none => some acc
        | some pile => placePile n i 0 pile acc) acc = some acc' ∧ acc'.length = acc.length ∧
      ∀ t, acc'[t]? = if t % n < m then xs[t]? else acc[t]? := by
  induction m with
  | zero => exact ⟨acc, rfl, rfl, fun t => by simp⟩
  | succ m ih =>
    obtain ⟨acc', before, length, filled⟩ := ih (by omega)
    obtain ⟨pile, got, pileDealt⟩ := dealt m (by omega)
    obtain ⟨acc'', placed, length', filled'⟩ := placePile_fill (by omega : m < n) pile 0
      (fun k => by rw [pileDealt k, Nat.zero_add]) acc' (by rw [length, size])
    refine ⟨acc'', ?_, by rw [length', length], fun t => ?_⟩
    · rw [List.range_succ, List.foldlM_append, before]
      simp [got, placed]
    · rw [filled', filled t]
      by_cases residue : t % n = m
      · simp [residue]
      · have below : t % n < m + 1 ↔ t % n < m := by omega
        simp [residue, below]

/-- Placing the piles of `deal n xs` into a list as long as `xs` gives `xs`. -/
theorem placeAll_deal {n : Nat} (xs : List α) (dealt : 0 < n ∨ xs = []) (acc : List α)
    (size : acc.length = xs.length) : placeAll n (fun i => (deal n xs)[i]?) acc = some xs := by
  by_cases pos : 0 < n
  · have piles : ∀ i < n, ∃ pile, (deal n xs)[i]? = some pile ∧
        ∀ k, pile[k]? = xs[n * k + i]? := by
      intro i lt
      have bound : i < (deal n xs).length := by rw [length_deal]; exact lt
      have found : (deal n xs)[i]? = some (deal n xs)[i] := List.getElem?_eq_getElem bound
      refine ⟨_, found, fun k => ?_⟩
      have element := deal_pile lt xs k
      rwa [found, Option.getD_some] at element
    obtain ⟨acc', placed, -, filled⟩ := placeAll_fill piles acc size le_rfl
    have same : acc' = xs := List.ext_getElem? fun t => by
      rw [filled, if_pos (Nat.mod_lt t pos)]
    rw [placeAll, placed, same]
  · -- no piles: only an empty list is placed
    have zero : n = 0 := by omega
    have empty : xs = [] := dealt.resolve_left pos
    subst zero empty
    rw [List.length_nil, List.length_eq_zero_iff] at size
    subst size
    rfl

end RoundRobin
