import Mathlib

/-!
# Glob patterns

A glob is a list of tokens: a letter, which matches itself, `one`, which matches one letter, and
`many`, which matches any word. Both wildcards take only the letters a predicate `ok` admits.
`lang` is what a glob means: the word splits into one piece per token, each matched by its token.
`globMatch` decides it, walking the glob and the word together, and `globMatch_iff` says the two
agree.
-/

namespace Glob

/-- A glob token. -/
inductive Tok (α : Type) where
  | lit (a : α)
  | one
  | many
  deriving DecidableEq, Repr

variable {α : Type}

def Tok.lang (ok : α → Prop) : Tok α → Set (List α)
  | .lit a => {[a]}
  | .one => {w | ∃ c, ok c ∧ w = [c]}
  | .many => {w | ∀ c ∈ w, ok c}

def lang (ok : α → Prop) : List (Tok α) → Set (List α)
  | [] => {[]}
  | t :: ts => {w | ∃ u v, w = u ++ v ∧ u ∈ t.lang ok ∧ v ∈ lang ok ts}

def globMatch [DecidableEq α] (ok : α → Bool) : List (Tok α) → List α → Bool
  | [], w => w.isEmpty
  | .lit a :: ts, w =>
    match w with
    | c :: w => c == a && globMatch ok ts w
    | [] => false
  | .one :: ts, w =>
    match w with
    | c :: w => ok c && globMatch ok ts w
    | [] => false
  | .many :: ts, w => globMatch.many ok (globMatch ok ts) w
where
  /-- `many` followed by a rest that `rest` decides. -/
  many (ok : α → Bool) (rest : List α → Bool) : List α → Bool
    | [] => rest []
    | c :: w => rest (c :: w) || (ok c && many ok rest w)

section lang

variable {ok : α → Prop} {ts : List (Tok α)} {w : List α}

@[simp] theorem mem_lang_nil : w ∈ lang ok [] ↔ w = [] := Iff.rfl

theorem mem_lang_lit {a : α} : w ∈ lang ok (.lit a :: ts) ↔ ∃ v, w = a :: v ∧ v ∈ lang ok ts := by
  constructor
  · rintro ⟨u, v, rfl, rfl, mem⟩
    exact ⟨v, rfl, mem⟩
  · rintro ⟨v, rfl, mem⟩
    exact ⟨[a], v, rfl, rfl, mem⟩

theorem mem_lang_one : w ∈ lang ok (.one :: ts) ↔ ∃ c v, w = c :: v ∧ ok c ∧ v ∈ lang ok ts := by
  constructor
  · rintro ⟨u, v, rfl, ⟨c, admitted, rfl⟩, mem⟩
    exact ⟨c, v, rfl, admitted, mem⟩
  · rintro ⟨c, v, rfl, admitted, mem⟩
    exact ⟨[c], v, rfl, ⟨c, admitted, rfl⟩, mem⟩

theorem mem_lang_many :
    w ∈ lang ok (.many :: ts) ↔
      w ∈ lang ok ts ∨ ∃ c v, w = c :: v ∧ ok c ∧ v ∈ lang ok (.many :: ts) := by
  constructor
  · rintro ⟨u, v, rfl, admitted, mem⟩
    cases u with
    | nil => exact .inl mem
    | cons c u =>
      exact .inr ⟨c, u ++ v, rfl, admitted c List.mem_cons_self,
        ⟨u, v, rfl, fun d below => admitted d (List.mem_cons_of_mem c below), mem⟩⟩
  · rintro (mem | ⟨c, v, rfl, admitted, u, v', rfl, rest, mem⟩)
    · exact ⟨[], w, rfl, fun _ none => absurd none List.not_mem_nil, mem⟩
    · refine ⟨c :: u, v', rfl, fun d below => ?_, mem⟩
      rcases List.mem_cons.mp below with rfl | later
      · exact admitted
      · exact rest d later

theorem cons_mem_lang_lit {a c : α} : c :: w ∈ lang ok (.lit a :: ts) ↔ c = a ∧ w ∈ lang ok ts := by
  rw [mem_lang_lit]
  constructor
  · rintro ⟨v, same, mem⟩
    obtain ⟨rfl, rfl⟩ := List.cons.inj same
    exact ⟨rfl, mem⟩
  · rintro ⟨rfl, mem⟩
    exact ⟨w, rfl, mem⟩

theorem cons_mem_lang_one {c : α} : c :: w ∈ lang ok (.one :: ts) ↔ ok c ∧ w ∈ lang ok ts := by
  rw [mem_lang_one]
  constructor
  · rintro ⟨d, v, same, admitted, mem⟩
    obtain ⟨rfl, rfl⟩ := List.cons.inj same
    exact ⟨admitted, mem⟩
  · rintro ⟨admitted, mem⟩
    exact ⟨c, w, rfl, admitted, mem⟩

theorem cons_mem_lang_many {c : α} :
    c :: w ∈ lang ok (.many :: ts) ↔
      c :: w ∈ lang ok ts ∨ ok c ∧ w ∈ lang ok (.many :: ts) := by
  rw [mem_lang_many]
  constructor
  · rintro (mem | ⟨d, v, same, admitted, mem⟩)
    · exact .inl mem
    · obtain ⟨rfl, rfl⟩ := List.cons.inj same
      exact .inr ⟨admitted, mem⟩
  · rintro (mem | ⟨admitted, mem⟩)
    · exact .inl mem
    · exact .inr ⟨c, w, rfl, admitted, mem⟩

theorem nil_mem_lang_many : [] ∈ lang ok (.many :: ts) ↔ [] ∈ lang ok ts := by
  rw [mem_lang_many]
  constructor
  · rintro (mem | ⟨c, v, same, -⟩)
    · exact mem
    · exact absurd same (List.cons_ne_nil _ _).symm
  · exact .inl

theorem mem_lang_map_lit {l : List α} : w ∈ lang ok (l.map .lit) ↔ w = l := by
  induction l generalizing w with
  | nil => exact mem_lang_nil
  | cons a l ih =>
    rw [List.map_cons, mem_lang_lit]
    constructor
    · rintro ⟨v, rfl, mem⟩
      rw [ih.mp mem]
    · rintro rfl
      exact ⟨l, rfl, ih.mpr rfl⟩

end lang

section matcher

variable [DecidableEq α] (ok : α → Bool)

omit [DecidableEq α] in
theorem globMatch_many_iff {rest : List α → Bool} {ts : List (Tok α)}
    (decides : ∀ w, rest w = true ↔ w ∈ lang (fun a => ok a = true) ts) (w : List α) :
    globMatch.many ok rest w = true ↔ w ∈ lang (fun a => ok a = true) (.many :: ts) := by
  induction w with
  | nil => rw [nil_mem_lang_many, ← decides]; rfl
  | cons c w ih =>
    rw [cons_mem_lang_many, ← decides, ← ih, globMatch.many, Bool.or_eq_true, Bool.and_eq_true]

/-- The matcher decides the glob's language. -/
theorem globMatch_iff (ts : List (Tok α)) (w : List α) :
    globMatch ok ts w = true ↔ w ∈ lang (fun a => ok a = true) ts := by
  induction ts generalizing w with
  | nil => simp [globMatch, List.isEmpty_iff]
  | cons t ts ih =>
    cases t with
    | lit a =>
      cases w with
      | nil => simp [globMatch, mem_lang_lit]
      | cons c w => rw [cons_mem_lang_lit, ← ih, globMatch, Bool.and_eq_true, beq_iff_eq]
    | one =>
      cases w with
      | nil => simp [globMatch, mem_lang_one]
      | cons c w => rw [cons_mem_lang_one, ← ih, globMatch, Bool.and_eq_true]
    | many => exact globMatch_many_iff ok ih w

end matcher

end Glob
