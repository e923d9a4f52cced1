import Mathlib

/-!
# First match in a list

A table that answers with the first entry of a list satisfying a test is specified by the index
of that entry: `NoneBefore xs i q` says that no entry before index `i` passes `q`. The lemmas here
relate it to `List.find?`, compare two first indices, and carry it across appending an entry;
`append_eq_append_cons` splits a list that grows by appending at the position of one entry.
-/

namespace FirstMatch

variable {α : Type _}

/-- No entry of `xs` before index `i` passes `q`. -/
def NoneBefore (xs : List α) (i : Nat) (q : α → Bool) : Prop :=
  ∀ i' a, i' < i → xs[i']? = some a → q a = false

theorem NoneBefore.mono {xs : List α} {i : Nat} {q q' : α → Bool} (before : NoneBefore xs i q')
    (le : ∀ a, q a = true → q' a = true) : NoneBefore xs i q := by
  intro i' a lt get
  cases hq : q a with
  | false => rfl
  | true => simpa [before i' a lt get] using le a hq

theorem NoneBefore.index_eq {xs : List α} {i j : Nat} {q q' : α → Bool} {a b : α}
    (hi : NoneBefore xs i q) (hj : NoneBefore xs j q') (ga : xs[i]? = some a)
    (gb : xs[j]? = some b) (qb : q b = true) (qa : q' a = true) : i = j := by
  by_contra ne
  rcases Nat.lt_or_gt_of_ne ne with lt | lt
  · simp [hj i a lt ga] at qa
  · simp [hi j b lt gb] at qb

theorem exists_noneBefore_of_find? {xs : List α} {p : α → Bool} {a : α}
    (found : xs.find? p = some a) : ∃ f, xs[f]? = some a ∧ NoneBefore xs f p := by
  obtain ⟨-, f, lt, get, before⟩ := List.find?_eq_some_iff_getElem.mp found
  refine ⟨f, by simp [lt, get], fun i b lt' get' => ?_⟩
  obtain ⟨h, rfl⟩ := List.getElem?_eq_some_iff.mp get'
  simpa using before i lt'

theorem noneBefore_of_find?_none {xs : List α} {p : α → Bool} (found : xs.find? p = none) :
    NoneBefore xs xs.length p := by
  intro i a _ get
  simpa using List.find?_eq_none.mp found a (List.mem_of_getElem? get)

theorem find?_none_of_noneBefore {xs : List α} {p : α → Bool}
    (before : NoneBefore xs xs.length p) : xs.find? p = none := by
  refine List.find?_eq_none.mpr fun a mem => ?_
  obtain ⟨i, get⟩ := List.mem_iff_getElem?.mp mem
  simp [before i a (List.getElem?_eq_some_iff.mp get).1 get]

theorem getElem?_concat_cases {xs : List α} {a b : α} {i : Nat} (get : (xs ++ [a])[i]? = some b) :
    (i < xs.length ∧ xs[i]? = some b) ∨ (i = xs.length ∧ b = a) := by
  rcases Nat.lt_or_ge i xs.length with lt | ge
  · exact .inl ⟨lt, by rwa [List.getElem?_append_left lt] at get⟩
  · rw [List.getElem?_append_right ge] at get
    have bound := (List.getElem?_eq_some_iff.mp get).1
    simp only [List.length_singleton] at bound
    obtain rfl : i = xs.length := by omega
    simp only [Nat.sub_self, List.getElem?_cons_zero, Option.some.injEq] at get
    exact .inr ⟨rfl, get.symm⟩

theorem getElem?_concat_of_lt {xs : List α} {a : α} {i : Nat} (lt : i < xs.length) :
    (xs ++ [a])[i]? = xs[i]? :=
  List.getElem?_append_left lt

theorem NoneBefore.concat_iff {xs : List α} {a : α} {i : Nat} {q : α → Bool}
    (le : i ≤ xs.length) : NoneBefore (xs ++ [a]) i q ↔ NoneBefore xs i q := by
  constructor
  · intro before i' b lt get
    exact before i' b lt (by rw [getElem?_concat_of_lt (by omega)]; exact get)
  · intro before i' b lt get
    exact before i' b lt (by rwa [getElem?_concat_of_lt (by omega)] at get)

/-- An entry of a list that grew by appending lies in the old part or in the new one. -/
theorem append_eq_append_cons {old new pre post : List α} {x : α}
    (eq : old ++ new = pre ++ x :: post) :
    (∃ post', old = pre ++ x :: post') ∨ ∃ pre', pre = old ++ pre' ∧ new = pre' ++ x :: post := by
  rcases List.append_eq_append_iff.mp eq with ⟨as, hpre, hnew⟩ | ⟨bs, hold, hrest⟩
  · exact .inr ⟨as, hpre, hnew⟩
  · -- the old list reaches `x`, unless it ends right before it
    cases bs with
    | nil => exact .inr ⟨[], by simpa using hold.symm, by simpa using hrest.symm⟩
    | cons b bs =>
      simp only [List.cons_append, List.cons.injEq] at hrest
      obtain ⟨rfl, -⟩ := hrest
      exact .inl ⟨bs, hold⟩

end FirstMatch
