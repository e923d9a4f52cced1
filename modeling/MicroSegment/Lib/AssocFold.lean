import Mathlib

/-!
# Grouping a list of keyed values with a combining function

A map from keys to accumulated values, filled by one pass over keyed values: the first value of
a key starts its entry, later ones are combined into it by `f`. The map is an association list
in the order keys first appear. `mem_upsertAll` says what it holds: each key of the input once,
with the values of that key folded from the left (`foldFirst`).
-/

namespace AssocFold

variable {κ β : Type _} [DecidableEq κ]

def upsert (f : β → β → β) : List (κ × β) → κ → β → List (κ × β)
  | [], k, b => [(k, b)]
  | (k', b') :: m, k, b => if k' = k then (k, f b' b) :: m else (k', b') :: upsert f m k b

def upsertAll (f : β → β → β) (ps : List (κ × β)) : List (κ × β) :=
  ps.foldl (fun m p => upsert f m p.1 p.2) []

def foldFirst (f : β → β → β) : List β → Option β
  | [] => none
  | b :: bs => some (bs.foldl f b)

def valuesOf (ps : List (κ × β)) (k : κ) : List β :=
  (ps.filter fun p => p.1 = k).map Prod.snd

theorem foldFirst_concat (f : β → β → β) (bs : List β) (b : β) :
    foldFirst f (bs ++ [b]) = some (((foldFirst f bs).map (f · b)).getD b) := by
  cases bs with
  | nil => rfl
  | cons b' bs => simp [foldFirst]

theorem valuesOf_concat (ps : List (κ × β)) (p : κ × β) (k : κ) :
    valuesOf (ps ++ [p]) k = valuesOf ps k ++ if p.1 = k then [p.2] else [] := by
  by_cases same : p.1 = k <;> simp [valuesOf, same]

theorem upsertAll_concat (f : β → β → β) (ps : List (κ × β)) (p : κ × β) :
    upsertAll f (ps ++ [p]) = upsert f (upsertAll f ps) p.1 p.2 := by
  simp [upsertAll]

section Upsert

variable (f : β → β → β)

theorem lookup_upsert (m : List (κ × β)) (k k' : κ) (b : β) :
    (upsert f m k b).lookup k' =
      if k' = k then some (((m.lookup k).map (f · b)).getD b) else m.lookup k' := by
  induction m with
  | nil => by_cases same : k' = k <;> simp [upsert, same]
  | cons e m ih =>
    obtain ⟨k'', b'⟩ := e
    by_cases same : k' = k''
    · subst same
      by_cases stored : k' = k
      · subst stored
        simp [upsert]
      · simp [upsert, stored]
    · have other : (k' == k'') = false := by simpa using same
      by_cases stored : k'' = k
      · subst stored
        simp [upsert, same, other, List.lookup_cons]
      · have other' : (k == k'') = false := by simpa using Ne.symm stored
        simp [upsert, stored, other, other', List.lookup_cons, ih]

theorem mem_keys_upsert (m : List (κ × β)) (k k' : κ) (b : β) :
    k' ∈ (upsert f m k b).map Prod.fst ↔ k' = k ∨ k' ∈ m.map Prod.fst := by
  induction m with
  | nil => simp [upsert]
  | cons e m ih =>
    obtain ⟨k'', b'⟩ := e
    by_cases stored : k'' = k
    · subst stored
      simp [upsert]
    · simp only [upsert, stored, if_false, List.map_cons, List.mem_cons, ih]
      tauto

theorem nodup_upsert {m : List (κ × β)} (nodup : (m.map Prod.fst).Nodup) (k : κ) (b : β) :
    ((upsert f m k b).map Prod.fst).Nodup := by
  induction m with
  | nil => simp [upsert]
  | cons e m ih =>
    obtain ⟨k'', b'⟩ := e
    simp only [List.map_cons, List.nodup_cons] at nodup
    by_cases stored : k'' = k
    · subst stored
      simpa [upsert] using nodup
    · simp only [upsert, stored, if_false, List.map_cons, List.nodup_cons, mem_keys_upsert]
      exact ⟨by tauto, ih nodup.2⟩

end Upsert

theorem lookup_of_mem {m : List (κ × β)} (nodup : (m.map Prod.fst).Nodup) {e : κ × β}
    (mem : e ∈ m) : m.lookup e.1 = some e.2 := by
  induction m with
  | nil => simp at mem
  | cons e' m ih =>
    obtain ⟨k', b'⟩ := e'
    simp only [List.map_cons, List.nodup_cons] at nodup
    rcases List.mem_cons.mp mem with rfl | later
    · simp
    · have other : e.1 ≠ k' := fun same => nodup.1 (same ▸ List.mem_map_of_mem later)
      have differ : (e.1 == k') = false := by simpa using other
      simp [List.lookup_cons, differ, ih nodup.2 later]

theorem mem_of_lookup {m : List (κ × β)} {k : κ} {b : β} (found : m.lookup k = some b) :
    (k, b) ∈ m := by
  induction m with
  | nil => simp at found
  | cons e m ih =>
    obtain ⟨k', b'⟩ := e
    by_cases same : k = k'
    · subst same
      simp only [List.lookup_cons_self, Option.some.injEq] at found
      simp [found]
    · have differ : (k == k') = false := by simpa using same
      simp only [List.lookup_cons, differ] at found
      exact List.mem_cons_of_mem _ (ih found)

theorem mem_iff_lookup {m : List (κ × β)} (nodup : (m.map Prod.fst).Nodup) {e : κ × β} :
    e ∈ m ↔ m.lookup e.1 = some e.2 :=
  ⟨lookup_of_mem nodup, mem_of_lookup⟩

theorem mem_upsert_iff (f : β → β → β) {m : List (κ × β)} (nodup : (m.map Prod.fst).Nodup)
    (k : κ) (b : β) {e : κ × β} :
    e ∈ upsert f m k b ↔
      e = (k, ((m.lookup k).map (f · b)).getD b) ∨ (e ∈ m ∧ e.1 ≠ k) := by
  obtain ⟨k', b'⟩ := e
  rw [mem_iff_lookup (nodup_upsert f nodup k b), lookup_upsert, mem_iff_lookup nodup]
  by_cases same : k' = k
  · subst same
    simp [eq_comm]
  · simp [same]

theorem mem_upsert_new_iff {m : List (κ × β)} (nodup : (m.map Prod.fst).Nodup) (k : κ) (b : β)
    {e : κ × β} : e ∈ upsert (fun _ new => new) m k b ↔ e = (k, b) ∨ (e ∈ m ∧ e.1 ≠ k) := by
  rw [mem_upsert_iff _ nodup]
  cases m.lookup k <;> rfl

theorem upsert_of_mem (f : β → β → β) {m : List (κ × β)} (nodup : (m.map Prod.fst).Nodup)
    {k : κ} {b : β} (mem : (k, b) ∈ m) (same : f b b = b) : upsert f m k b = m := by
  induction m with
  | nil => simp at mem
  | cons e m ih =>
    obtain ⟨k', b'⟩ := e
    simp only [List.map_cons, List.nodup_cons] at nodup
    rcases List.mem_cons.mp mem with first | later
    · obtain ⟨rfl, rfl⟩ := Prod.mk.inj first
      simp [upsert, same]
    · have other : k' ≠ k := fun stored => nodup.1 (stored ▸ List.mem_map_of_mem (f := Prod.fst) later)
      simp [upsert, other, ih nodup.2 later]

/-! ### The whole pass -/

section All

variable (f : β → β → β)

theorem lookup_upsertAll (ps : List (κ × β)) (k : κ) :
    (upsertAll f ps).lookup k = foldFirst f (valuesOf ps k) := by
  induction ps using List.reverseRecOn with
  | nil => rfl
  | append_singleton ps p ih =>
    rw [upsertAll_concat, lookup_upsert, valuesOf_concat]
    by_cases same : k = p.1
    · subst same
      simp [ih, foldFirst_concat]
    · simp [same, Ne.symm same, ih]

theorem mem_keys_upsertAll (ps : List (κ × β)) (k : κ) :
    k ∈ (upsertAll f ps).map Prod.fst ↔ k ∈ ps.map Prod.fst := by
  induction ps using List.reverseRecOn with
  | nil => simp [upsertAll]
  | append_singleton ps p ih =>
    rw [upsertAll_concat, mem_keys_upsert, ih]
    simp [or_comm, eq_comm]

theorem nodup_upsertAll (ps : List (κ × β)) : ((upsertAll f ps).map Prod.fst).Nodup := by
  induction ps using List.reverseRecOn with
  | nil => simp [upsertAll]
  | append_singleton ps p ih =>
    rw [upsertAll_concat]
    exact nodup_upsert f ih p.1 p.2

/-- The map holds each key of the input once, with its values folded. -/
theorem mem_upsertAll (ps : List (κ × β)) (e : κ × β) :
    e ∈ upsertAll f ps ↔ e.1 ∈ ps.map Prod.fst ∧ foldFirst f (valuesOf ps e.1) = some e.2 := by
  constructor
  · intro mem
    refine ⟨(mem_keys_upsertAll f ps e.1).mp (List.mem_map_of_mem mem), ?_⟩
    rw [← lookup_upsertAll]
    exact lookup_of_mem (nodup_upsertAll f ps) mem
  · rintro ⟨-, folded⟩
    rw [← lookup_upsertAll] at folded
    obtain ⟨l₁, l₂, split, -⟩ := List.lookup_eq_some_iff.mp folded
    rw [split]
    simp

theorem upsertAll_eq_nil (ps : List (κ × β)) : upsertAll f ps = [] ↔ ps = [] := by
  constructor
  · intro empty
    cases ps with
    | nil => rfl
    | cons p ps =>
      have := (mem_keys_upsertAll f (p :: ps) p.1).mpr (by simp)
      simp [empty] at this
  · rintro rfl
    rfl

theorem valuesOf_ne_nil {ps : List (κ × β)} {k : κ} (mem : k ∈ ps.map Prod.fst) :
    valuesOf ps k ≠ [] := by
  obtain ⟨p, present, rfl⟩ := List.mem_map.mp mem
  simp only [valuesOf, ne_eq, List.map_eq_nil_iff, List.filter_eq_nil_iff, decide_eq_true_eq,
    not_forall, not_not]
  exact ⟨p, present, rfl⟩

theorem all_upsertAll (P : β → Bool) (ps : List (κ × β)) :
    (upsertAll f ps).all (fun e => P e.2) = true ↔
      ∀ k ∈ ps.map Prod.fst, (foldFirst f (valuesOf ps k)).all P = true := by
  simp only [List.all_eq_true]
  constructor
  · intro all k mem
    cases folded : foldFirst f (valuesOf ps k) with
    | none => rfl
    | some v => exact by simpa using all (k, v) ((mem_upsertAll f ps (k, v)).mpr ⟨mem, folded⟩)
  · intro all e mem
    obtain ⟨key, folded⟩ := (mem_upsertAll f ps e).mp mem
    simpa [folded] using all e.1 key

end All

end AssocFold
