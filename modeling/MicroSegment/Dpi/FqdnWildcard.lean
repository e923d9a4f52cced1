import MicroSegment.Dpi.Fqdn

/-!
# Wildcard FQDN names

`match_fqdn_wildcard_name`, which the policy lookup runs on a session's host name, and the
snooping loop enumerate the same candidate names: for every dot at an index `p ≥ 1` that comes
before the last dot not in the last position, the name `*` followed by the suffix from that dot
(`mem_wildcardCandidates`). The match compares the record's name with each candidate ignoring
case; snooping looks each candidate of the lower-cased name up as a key.
-/

namespace MicroSegment.Dpi

def matchFqdnWildcardName (vhost fqdname : List Char) : Bool :=
  (wildcardCandidates (strlcpy vhost maxFqdnLen)).any fun c => strcaseEq fqdname c

theorem lastDotFrom_spec (d : List Char) :
    ∀ n, (lastDotFrom d n = 0 ∧ ∀ q, 1 ≤ q → q ≤ n → d.getD q ' ' ≠ '.') ∨
      ∃ j : Nat, lastDotFrom d n = (j : Int) ∧ 1 ≤ j ∧ j ≤ n ∧ d.getD j ' ' = '.' ∧
        ∀ q, j < q → q ≤ n → d.getD q ' ' ≠ '.'
  | 0 => .inl ⟨rfl, fun q low high => absurd high (by omega)⟩
  | n + 1 => by
    unfold lastDotFrom
    by_cases dot : d.getD (n + 1) ' ' = '.'
    · rw [if_pos dot]
      exact .inr ⟨n + 1, rfl, by omega, Nat.le_refl _, dot, fun q low high => absurd high (by omega)⟩
    · rw [if_neg dot]
      -- below `n + 1` the search goes on as from `n`
      have later : ∀ q, n < q → q ≤ n + 1 → d.getD q ' ' ≠ '.' := by
        intro q low high
        rw [show q = n + 1 by omega]
        exact dot
      rcases lastDotFrom_spec d n with ⟨none, before⟩ | ⟨j, found, low, high, at_j, after⟩
      · refine .inl ⟨none, fun q low high => ?_⟩
        by_cases last : q = n + 1
        · rw [last]
          exact dot
        · exact before q low (by omega)
      · refine .inr ⟨j, found, low, by omega, at_j, fun q above high' => ?_⟩
        by_cases last : q ≤ n
        · exact after q above last
        · exact later q (by omega) high'

theorem toLower_eq_dot {x : Char} (low : x.toLower = '.') : x = '.' := by
  unfold Char.toLower at low
  split at low
  · next upper =>
    -- an upper-case letter goes to a lower-case one
    have same := congrArg (fun c : Char => c.val.toNat) low
    simp only [UInt32.le_iff_toNat_le, ge_iff_le] at upper
    simp [UInt32.toNat_add] at same
    simp at upper
    omega
  · exact low

/-- The candidates of a name: `*` followed by the suffix from a dot at `p ≥ 1`, when a later dot
stands before the last character. -/
theorem mem_wildcardCandidates (d c : List Char) :
    c ∈ wildcardCandidates d ↔
      ∃ p q, 1 ≤ p ∧ p < q ∧ q + 2 ≤ d.length ∧ d.getD p ' ' = '.' ∧ d.getD q ' ' = '.' ∧
        c = '*' :: d.drop p := by
  unfold wildcardCandidates
  simp only [List.mem_map, List.mem_filter, List.mem_range, decide_eq_true_eq]
  by_cases short : d.length < 2
  · rw [if_pos short]
    constructor
    · rintro ⟨i, ⟨below, -⟩, -⟩
      omega
    · rintro ⟨p, q, -, -, room, -⟩
      omega
  · rw [if_neg short]
    rcases lastDotFrom_spec d (d.length - 2) with ⟨none, nodot⟩ | ⟨j, found, low, high, at_j, after⟩
    · rw [none]
      constructor
      · rintro ⟨i, ⟨below, -⟩, -⟩
        omega
      · rintro ⟨p, q, low, lt, room, -, at_q, -⟩
        exact absurd at_q (nodot q (by omega) (by omega))
    · rw [found]
      constructor
      · rintro ⟨i, ⟨below, at_p⟩, rfl⟩
        exact ⟨i + 1, j, by omega, by omega, by omega, at_p, at_j, rfl⟩
      · rintro ⟨p, q, low', lt, room, at_p, at_q, rfl⟩
        -- the dot at `q` is at most the last one found, so `p` lies below it
        have le : q ≤ j := by
          by_contra beyond
          exact after q (by omega) (by omega) at_q
        exact ⟨p - 1, ⟨by omega, by rw [Nat.sub_add_cancel low']; exact at_p⟩,
          by rw [Nat.sub_add_cancel low']⟩

theorem strlcpy_maxFqdnLen {d : List Char} (short : d.length < maxFqdnLen) :
    strlcpy d maxFqdnLen = d := by
  unfold strlcpy
  exact List.take_of_length_le (by unfold maxFqdnLen at short ⊢; omega)

theorem matchFqdnWildcardName_spec (d w : List Char) (short : d.length < maxFqdnLen) :
    (matchFqdnWildcardName d w = true ↔
      ∃ p q, 1 ≤ p ∧ p < q ∧ q + 2 ≤ d.length ∧ d.getD p ' ' = '.' ∧ d.getD q ' ' = '.' ∧
        strcaseEq w ('*' :: d.drop p) = true) ∧
    (∀ c, c ∈ wildcardCandidates (strlcpy (d.map Char.toLower) maxFqdnLen) ↔
      ∃ p q, 1 ≤ p ∧ p < q ∧ q + 2 ≤ d.length ∧ d.getD p ' ' = '.' ∧ d.getD q ' ' = '.' ∧
        c = '*' :: (d.map Char.toLower).drop p) := by
  have lowered : (d.map Char.toLower).length < maxFqdnLen := by rwa [List.length_map]
  -- lower-casing keeps the dots where they are
  have dots : ∀ k, (d.map Char.toLower).getD k ' ' = '.' ↔ d.getD k ' ' = '.' := by
    intro k
    simp only [List.getD_eq_getElem?_getD, List.getElem?_map]
    cases d[k]? with
    | none => simp
    | some x =>
      simp only [Option.map_some, Option.getD_some]
      exact ⟨toLower_eq_dot, fun dot => by rw [dot]; rfl⟩
  refine ⟨?_, fun c => ?_⟩
  · unfold matchFqdnWildcardName
    rw [strlcpy_maxFqdnLen short, List.any_eq_true]
    constructor
    · rintro ⟨c, mem, same⟩
      obtain ⟨p, q, low, lt, room, at_p, at_q, rfl⟩ := (mem_wildcardCandidates d c).mp mem
      exact ⟨p, q, low, lt, room, at_p, at_q, same⟩
    · rintro ⟨p, q, low, lt, room, at_p, at_q, same⟩
      exact ⟨_, (mem_wildcardCandidates d _).mpr ⟨p, q, low, lt, room, at_p, at_q, rfl⟩, same⟩
  · rw [strlcpy_maxFqdnLen lowered, mem_wildcardCandidates, List.length_map]
    simp only [dots]

end MicroSegment.Dpi
