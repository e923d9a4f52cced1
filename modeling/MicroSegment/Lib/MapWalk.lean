import Mathlib

/-!
# Walks over a map that drop entries, and loops that repeat them

`walk each l s` visits the entries of `l` in order with a state `s`. The callback returns the new
state, the entry's new value (`none` drops it from the map) and whether to stop. The map that
results is the visited entries as the callback left them, followed by those not visited.

`repeatWhile body fuel s` runs `body` until it reports that nothing is left to do, at most `fuel`
times. A measure that every repeated round lowers shows that enough fuel ends it through the
body, not through the fuel (`repeatWhile_finishes`).
-/

namespace MapWalk

variable {σ α : Type}

def walk (each : σ → α → σ × Option α × Bool) : List α → σ → σ × List α × Bool
  | [], s => (s, [], false)
  | a :: as, s =>
    let (s, a', stop) := each s a
    if stop then (s, a'.toList ++ as, true)
    else
      let (s, as', more) := walk each as s
      (s, a'.toList ++ as', more)

section Walk

variable (each : σ → α → σ × Option α × Bool) (Inv : σ → Prop)

theorem walk_nil (s : σ) : walk each [] s = (s, [], false) := rfl

theorem walk_cons (a : α) (as : List α) (s : σ) :
    walk each (a :: as) s =
      if (each s a).2.2 then ((each s a).1, (each s a).2.1.toList ++ as, true)
      else ((walk each as (each s a).1).1, (each s a).2.1.toList ++ (walk each as (each s a).1).2.1,
        (walk each as (each s a).1).2.2) := rfl

theorem walk_inv (keeps : ∀ s a, Inv s → Inv (each s a).1) :
    ∀ (l : List α) (s : σ), Inv s → Inv (walk each l s).1
  | [], _, holds => holds
  | a :: as, s, holds => by
    rw [walk_cons]
    split
    · exact keeps s a holds
    · exact walk_inv keeps as _ (keeps s a holds)

theorem walk_stopped (P : σ → Prop) (keeps : ∀ s a, Inv s → Inv (each s a).1)
    (stops : ∀ s a, Inv s → (each s a).2.2 = true → P (each s a).1) :
    ∀ (l : List α) (s : σ), Inv s → (walk each l s).2.2 = true → P (walk each l s).1
  | [], _, _, stopped => absurd stopped Bool.false_ne_true
  | a :: as, s, holds, stopped => by
    rw [walk_cons] at stopped ⊢
    by_cases stop : (each s a).2.2 = true
    · rw [if_pos stop]
      exact stops s a holds stop
    · rw [if_neg stop] at stopped ⊢
      exact walk_stopped P keeps stops as _ (keeps s a holds) stopped

theorem filterMap_walk (g : α → Option α) (idem : ∀ a b, g a = some b → g b = some b)
    (keeps : ∀ s a, Inv s → Inv (each s a).1)
    (clean : ∀ s a, Inv s → (each s a).2.1.bind g = g a) :
    ∀ (l : List α) (s : σ), Inv s → (walk each l s).2.1.filterMap g = l.filterMap g
  | [], _, _ => rfl
  | a :: as, s, holds => by
    have visited : (each s a).2.1.toList.filterMap g = (g a).toList := by
      rw [← clean s a holds]
      cases (each s a).2.1 with
      | none => rfl
      | some b =>
        show [b].filterMap g = (g b).toList
        cases found : g b with
        | none => simp [found]
        | some c => simp [found]
    have same : (g a).toList ++ as.filterMap g = (a :: as).filterMap g := by
      cases found : g a <;> simp [found]
    rw [walk_cons]
    split
    · rw [List.filterMap_append, visited, same]
    · rw [List.filterMap_append, visited,
        filterMap_walk g idem keeps clean as _ (keeps s a holds), same]

theorem walk_of_finished (g : α → Option α) (keeps : ∀ s a, Inv s → Inv (each s a).1)
    (clean : ∀ s a, Inv s → (each s a).2.2 = false → (each s a).2.1 = g a) :
    ∀ (l : List α) (s : σ), Inv s → (walk each l s).2.2 = false →
      (walk each l s).2.1 = l.filterMap g
  | [], _, _, _ => rfl
  | a :: as, s, holds, finished => by
    rw [walk_cons] at finished ⊢
    by_cases stop : (each s a).2.2 = true
    · rw [if_pos stop] at finished
      exact Bool.noConfusion finished
    · rw [Bool.not_eq_true] at stop
      rw [if_neg (by rw [stop]; exact Bool.false_ne_true)] at finished ⊢
      rw [walk_of_finished g keeps clean as _ (keeps s a holds) finished, clean s a holds stop]
      cases found : g a <;> simp [found]

theorem walk_length (μ : σ → Nat) (keeps : ∀ s a, Inv s → Inv (each s a).1)
    (counts : ∀ s a, Inv s → μ (each s a).1 + (each s a).2.1.toList.length = μ s + 1) :
    ∀ (l : List α) (s : σ), Inv s →
      μ (walk each l s).1 + (walk each l s).2.1.length = μ s + l.length
  | [], _, _ => rfl
  | a :: as, s, holds => by
    have step := counts s a holds
    rw [walk_cons]
    split
    · simp only [List.length_append, List.length_cons]
      omega
    · have rest := walk_length μ keeps counts as _ (keeps s a holds)
      simp only [List.length_append, List.length_cons]
      omega

theorem walk_perm (queue : σ → List α) (keeps : ∀ s a, Inv s → Inv (each s a).1)
    (moves : ∀ s a, Inv s →
      ((each s a).2.1 = some a ∧ queue (each s a).1 = queue s) ∨
        ((each s a).2.1 = none ∧ queue (each s a).1 = queue s ++ [a])) :
    ∀ (l : List α) (s : σ), Inv s →
      (queue (walk each l s).1 ++ (walk each l s).2.1).Perm (queue s ++ l)
  | [], s, _ => by rw [walk_nil, List.append_nil]
  | a :: as, s, holds => by
    rw [walk_cons]
    rcases moves s a holds with ⟨kept, same⟩ | ⟨dropped, queued⟩
    · split
      · rw [kept, same]
        rfl
      · have rest := walk_perm queue keeps moves as _ (keeps s a holds)
        rw [same] at rest
        rw [kept]
        show (queue (walk each as (each s a).1).1 ++ a :: (walk each as (each s a).1).2.1).Perm
          (queue s ++ a :: as)
        exact List.perm_middle.trans ((rest.cons a).trans List.perm_middle.symm)
    · split
      · rw [dropped, queued]
        simp
      · have rest := walk_perm queue keeps moves as _ (keeps s a holds)
        rw [queued] at rest
        rw [dropped]
        simpa using rest

end Walk

def repeatWhile (body : σ → σ × Bool) : Nat → σ → σ
  | 0, s => s
  | fuel + 1, s => if (body s).2 then repeatWhile body fuel (body s).1 else (body s).1

section Repeat

variable (body : σ → σ × Bool) (Inv : σ → Prop)

theorem repeatWhile_inv (keeps : ∀ s, Inv s → Inv (body s).1) :
    ∀ (fuel : Nat) (s : σ), Inv s → Inv (repeatWhile body fuel s)
  | 0, _, holds => holds
  | fuel + 1, s, holds => by
    unfold repeatWhile
    split
    · exact repeatWhile_inv keeps fuel _ (keeps s holds)
    · exact keeps s holds

/-- When every round that asks for another lowers `μ`, fuel above `μ` ends the loop through a
round that asks for none: its result is that round's. -/
theorem repeatWhile_finishes (μ : σ → Nat) (keeps : ∀ s, Inv s → Inv (body s).1)
    (lowers : ∀ s, Inv s → (body s).2 = true → μ (body s).1 < μ s) :
    ∀ (fuel : Nat) (s : σ), Inv s → μ s < fuel →
      ∃ last, Inv last ∧ (body last).2 = false ∧ repeatWhile body fuel s = (body last).1
  | 0, _, _, lt => absurd lt (Nat.not_lt_zero _)
  | fuel + 1, s, holds, lt => by
    unfold repeatWhile
    by_cases more : (body s).2 = true
    · rw [if_pos more]
      have lower := lowers s holds more
      exact repeatWhile_finishes μ keeps lowers fuel _ (keeps s holds) (by omega)
    · rw [if_neg more]
      exact ⟨s, holds, by simpa using more, rfl⟩

end Repeat

end MapWalk
