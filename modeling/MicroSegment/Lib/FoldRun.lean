import Mathlib

/-!
# Runs of a loop over a list

A loop that consumes a list, each element of which stands for some requests. An invariant of the
requests consumed so far and the state, kept by every step, holds after the loop; the nested
form handles a loop whose body is itself a loop.
-/

namespace FoldRun

variable {α β σ : Type _}

theorem foldl_flatMap_induction (f : σ → α → σ) (g : α → List β) (P : List β → σ → Prop)
    (as : List α) (step : ∀ a ∈ as, ∀ bs s, P bs s → P (bs ++ g a) (f s a)) {bs : List β} {s : σ}
    (start : P bs s) : P (bs ++ as.flatMap g) (as.foldl f s) := by
  induction as generalizing bs s with
  | nil => simpa using start
  | cons a as ih =>
    have first := step a List.mem_cons_self bs s start
    have rest := ih (fun a' mem => step a' (List.mem_cons_of_mem a mem)) first
    simpa using rest

theorem foldl_map_induction (f : σ → α → σ) (g : α → β) (P : List β → σ → Prop) (as : List α)
    (step : ∀ a ∈ as, ∀ bs s, P bs s → P (bs ++ [g a]) (f s a)) {bs : List β} {s : σ}
    (start : P bs s) : P (bs ++ as.map g) (as.foldl f s) := by
  have run := foldl_flatMap_induction f (fun a => [g a]) P as step start
  rwa [← List.map_eq_flatMap] at run

end FoldRun
