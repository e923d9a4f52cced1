import Mathlib
import MicroSegment.Dpi.FqdnWildcard
import MicroSegment.Dpi.FqdnDelete

/-!
# The records DNS snooping associates

`snooped_fqdn_ipv4_mapping` adds the answer's IPs to the record the name map finds for the
lowered name and for each wildcard candidate of it. The name map hashes its key as written,
while `match_fqdn_wildcard_name` compares ignoring case, so the two agree on a map keyed by the
lower-case names of its records (`NamesKeyed`): snooping a name associates its IPs with a record
exactly when the name is the record's or the wildcard match holds
(`snoopedFqdnIpv4Mapping_wildcard`).
-/

namespace MicroSegment.Dpi

/-- The name map is keyed by the names of its records, which are lower case and each used once. -/
structure NamesKeyed (h : FqdnHdl) : Prop where
  key : ∀ e ∈ h.nameMap, e.key = (h.record e.r).name
  lower : ∀ e ∈ h.nameMap, (h.record e.r).name.map Char.toLower = (h.record e.r).name
  unique : (h.nameMap.map fun e => (h.record e.r).name).Nodup

theorem strcaseEq_iff_of_lower {a b : List Char} (lower : a.map Char.toLower = a) :
    strcaseEq a b = true ↔ a = b.map Char.toLower := by
  unfold strcaseEq
  rw [lower, beq_iff_eq]

theorem map_toLower_map_toLower (s : List Char) :
    (s.map Char.toLower).map Char.toLower = s.map Char.toLower := by
  simp [List.map_map, Function.comp_def]

theorem NamesKeyed.nameLookup_eq_some {h : FqdnHdl} (keyed : NamesKeyed h) {k : List Char}
    (lower : k.map Char.toLower = k) {e : NameEntry} (mem : e ∈ h.nameMap) :
    nameLookup h k = some e ↔ (h.record e.r).name = k := by
  -- on the map's entries, the lookup's test is equality of the record's name with the key
  have test : ∀ x ∈ h.nameMap, (sdbmHash x.key == sdbmHash k &&
      strcaseEq (h.record x.r).name k) = true ↔ (h.record x.r).name = k := by
    intro x xmem
    rw [Bool.and_eq_true, strcaseEq_iff_of_lower (keyed.lower x xmem), lower, keyed.key x xmem]
    constructor
    · exact fun both => both.2
    · intro same
      exact ⟨by rw [same]; exact beq_self_eq_true _, same⟩
  -- so an entry the lookup finds has a record of that name
  have named_of_found : ∀ {x}, nameLookup h k = some x → (h.record x.r).name = k := by
    intro x found
    have xmem := nameLookup_mem found
    unfold nameLookup at found
    have holds := List.find?_some found
    exact (test x xmem).mp holds
  constructor
  · exact named_of_found
  · intro named
    obtain ⟨e', found⟩ : ∃ e', nameLookup h k = some e' := by
      cases lookup : nameLookup h k with
      | some e' => exact ⟨e', rfl⟩
      | none =>
        have := List.find?_eq_none.mp lookup e mem
        exact absurd ((test e mem).mpr named) this
    have same := (named_of_found found).trans named.symm
    rw [found, List.inj_on_of_nodup_map keyed.unique (nameLookup_mem found) mem same]

/-- What snooping does not change: the name map, the number of records, and each record's name
and flags. -/
structure SnoopKeeps (h h' : FqdnHdl) : Prop where
  nameMap : h'.nameMap = h.nameMap
  length : h'.records.length = h.records.length
  name : ∀ r, (h'.record r).name = (h.record r).name
  flag : ∀ r, (h'.record r).flag = (h.record r).flag

theorem SnoopKeeps.refl (h : FqdnHdl) : SnoopKeeps h h := ⟨rfl, rfl, fun _ => rfl, fun _ => rfl⟩

theorem SnoopKeeps.trans {h₁ h₂ h₃ : FqdnHdl} (one : SnoopKeeps h₁ h₂) (two : SnoopKeeps h₂ h₃) :
    SnoopKeeps h₁ h₃ :=
  ⟨two.nameMap.trans one.nameMap, two.length.trans one.length,
    fun r => (two.name r).trans (one.name r), fun r => (two.flag r).trans (one.flag r)⟩

theorem SnoopKeeps.nameLookup_eq {h h' : FqdnHdl} (keeps : SnoopKeeps h h') :
    nameLookup h' = nameLookup h := by
  funext k
  unfold nameLookup
  simp only [keeps.nameMap, keeps.name]

theorem SnoopKeeps.snoopable_eq {h h' : FqdnHdl} (keeps : SnoopKeeps h h') (r : Nat) :
    snoopable (h'.record r) = snoopable (h.record r) := by
  unfold snoopable
  rw [keeps.flag]

theorem FqdnHdl.field_modifyRecord {α : Type} (h : FqdnHdl) (r : Nat) {f : FqdnRecord → FqdnRecord}
    (g : FqdnRecord → α) (keep : ∀ rec, g (f rec) = g rec) (r' : Nat) :
    g ((h.modifyRecord r f).record r') = g (h.record r') := by
  by_cases lt : r < h.records.length
  · rw [h.record_modifyRecord f lt]
    split
    · next same => rw [same, keep]
    · rfl
  · have same : h.modifyRecord r f = h := by
      unfold FqdnHdl.modifyRecord
      rw [List.modify_eq_self (by omega)]
    rw [same]

theorem SnoopKeeps.modifyRecord (h : FqdnHdl) (r : Nat) {f : FqdnRecord → FqdnRecord}
    (name : ∀ rec, (f rec).name = rec.name) (flag : ∀ rec, (f rec).flag = rec.flag) :
    SnoopKeeps h (h.modifyRecord r f) :=
  ⟨rfl, h.records_length_modifyRecord r f, h.field_modifyRecord r (·.name) name,
    h.field_modifyRecord r (·.flag) flag⟩

theorem associateIp_keeps (h : FqdnHdl) (r : Nat) (ip : UInt32) :
    SnoopKeeps h (associateIp h r ip).1 := by
  -- `config_record_ip_list` changes at most the record's IP list and count
  have recorded : ∀ e : Ipv4Entry, SnoopKeeps h (configRecordIpList h e r).1 := by
    intro e
    rw [configRecordIpList_hdl]
    split
    · exact SnoopKeeps.refl h
    · exact SnoopKeeps.modifyRecord h r (fun _ => rfl) (fun _ => rfl)
  unfold associateIp
  split <;> exact ⟨(recorded _).nameMap, (recorded _).length, (recorded _).name, (recorded _).flag⟩

/-! ### What an association adds -/

/-- `h'` is `h` with the pairs `adds` picks added to the records' IP lists, and otherwise kept as
snooping sees it. -/
structure SnoopAdds (h h' : FqdnHdl) (adds : Nat → UInt32 → Prop) : Prop extends SnoopKeeps h h' where
  iplist : ∀ r ip, ip ∈ (h'.record r).iplist ↔ ip ∈ (h.record r).iplist ∨ adds r ip

section SnoopAdds

variable {h h₁ h₂ h₃ : FqdnHdl} {A B : Nat → UInt32 → Prop}

theorem SnoopAdds.refl (h : FqdnHdl) : SnoopAdds h h fun _ _ => False :=
  ⟨SnoopKeeps.refl h, fun _ _ => by rw [or_false]⟩

theorem SnoopAdds.trans (one : SnoopAdds h₁ h₂ A) (two : SnoopAdds h₂ h₃ B) :
    SnoopAdds h₁ h₃ fun r ip => A r ip ∨ B r ip :=
  ⟨one.toSnoopKeeps.trans two.toSnoopKeeps, fun r ip => by rw [two.iplist, one.iplist, or_assoc]⟩

theorem SnoopAdds.congr (adds : SnoopAdds h₁ h₂ A) (same : ∀ r ip, A r ip ↔ B r ip) :
    SnoopAdds h₁ h₂ B :=
  ⟨adds.toSnoopKeeps, fun r ip => by rw [adds.iplist, same]⟩

theorem SnoopAdds.modifyRecord (h : FqdnHdl) (r : Nat) {f : FqdnRecord → FqdnRecord}
    (name : ∀ rec, (f rec).name = rec.name) (flag : ∀ rec, (f rec).flag = rec.flag)
    (iplist : ∀ rec, (f rec).iplist = rec.iplist) :
    SnoopAdds h (h.modifyRecord r f) fun _ _ => False :=
  ⟨SnoopKeeps.modifyRecord h r name flag, fun r' ip => by
    rw [h.field_modifyRecord r (·.iplist) iplist, or_false]⟩

end SnoopAdds

theorem associateIp_adds (h : FqdnHdl) {r : Nat} (lt : r < h.records.length) (ip : UInt32) :
    SnoopAdds h (associateIp h r ip).1 fun r' ip' => r' = r ∧ ip' = ip := by
  refine ⟨associateIp_keeps h r ip, fun r' ip' => ?_⟩
  rw [(associateIp_addsPair h lt ip).iplist r']
  split
  · next same => simp [same]
  · next other => simp [other]

theorem associateIpRecord_adds (h : FqdnHdl) {r : Nat} (lt : r < h.records.length)
    (ips : List UInt32) :
    SnoopAdds h (associateIpRecord h r ips) fun r' ip => r' = r ∧ ip ∈ ips := by
  -- the loop over the IPs, whatever it records beside the handle
  have loop : ∀ {f : FqdnHdl × Bool → UInt32 → FqdnHdl × Bool} {acc' : FqdnHdl × Bool},
      ips.foldl f (h, false) = acc' → (∀ acc ip, (f acc ip).1 = (associateIp acc.1 r ip).1) →
      SnoopAdds h acc'.1 fun r' ip => r' = r ∧ ip ∈ ips := by
    intro f acc' folded step
    -- induction on the IPs left, from any accumulator whose handle has the record
    have run : ∀ (ips : List UInt32) (acc : FqdnHdl × Bool), r < acc.1.records.length →
        SnoopAdds acc.1 (ips.foldl f acc).1 fun r' ip => r' = r ∧ ip ∈ ips := by
      intro ips
      induction ips with
      | nil => exact fun acc _ => (SnoopAdds.refl acc.1).congr (by simp)
      | cons ip ips ih =>
        intro acc lt
        have first := associateIp_adds acc.1 lt ip
        rw [← step] at first
        have rest := ih (f acc ip) (by rw [first.length]; exact lt)
        rw [List.foldl_cons]
        refine (first.trans rest).congr fun r' ip' => ?_
        simp only [List.mem_cons]
        tauto
    rw [← folded]
    exact run ips (h, false) lt
  unfold associateIpRecord
  split
  next _ acc' _ folded =>
    have run := loop folded fun _ _ => rfl
    dsimp only at run ⊢
    split
    · have flagged := SnoopAdds.modifyRecord acc' r (f := fun rec => { rec with recordUpdated := true })
        (fun _ => rfl) (fun _ => rfl) (fun _ => rfl)
      exact (run.trans flagged).congr fun r' ip => by rw [or_false]
    · exact run

/-- Every entry of the name map points at a record of the handle. -/
def FqdnHdl.EntriesIn (h : FqdnHdl) : Prop := ∀ e ∈ h.nameMap, e.r < h.records.length

theorem SnoopKeeps.entriesIn {h h' : FqdnHdl} (keeps : SnoopKeeps h h') (within : h.EntriesIn) :
    h'.EntriesIn := by
  intro e mem
  rw [keeps.length]
  exact within e (keeps.nameMap ▸ mem)

theorem snoopAssociate_adds {h : FqdnHdl} (within : h.EntriesIn) (ips : List UInt32)
    (key : List Char) :
    SnoopAdds h (snoopAssociate ips h key) fun r ip =>
      (∃ e, nameLookup h key = some e ∧ e.r = r) ∧ snoopable (h.record r) = true ∧ ip ∈ ips := by
  unfold snoopAssociate
  split
  · next e found =>
    split
    · next snoop =>
      refine (associateIpRecord_adds h (within e (nameLookup_mem found)) ips).congr fun r ip => ?_
      constructor
      · rintro ⟨rfl, mem⟩
        exact ⟨⟨e, found, rfl⟩, snoop, mem⟩
      · rintro ⟨⟨e', found', rfl⟩, -, mem⟩
        cases found.symm.trans found'
        exact ⟨rfl, mem⟩
    · next skip =>
      refine (SnoopAdds.refl h).congr fun r ip => ⟨False.elim, ?_⟩
      rintro ⟨⟨e', found', rfl⟩, snoop, -⟩
      cases found.symm.trans found'
      exact skip snoop
  · next absent =>
    refine (SnoopAdds.refl h).congr fun r ip => ⟨False.elim, ?_⟩
    rintro ⟨⟨e', found', -⟩, -⟩
    rw [absent] at found'
    cases found'

theorem foldl_snoopAssociate_adds (ips : List UInt32) (keys : List (List Char)) :
    ∀ {h : FqdnHdl}, h.EntriesIn →
      SnoopAdds h (keys.foldl (snoopAssociate ips) h) fun r ip =>
        (∃ key ∈ keys, ∃ e, nameLookup h key = some e ∧ e.r = r) ∧
          snoopable (h.record r) = true ∧ ip ∈ ips := by
  induction keys with
  | nil => exact fun {h} _ => (SnoopAdds.refl h).congr (by simp)
  | cons key keys ih =>
    intro h within
    have first := snoopAssociate_adds within ips key
    have rest := ih (first.entriesIn within)
    rw [List.foldl_cons]
    refine (first.trans rest).congr fun r ip => ?_
    rw [first.nameLookup_eq, first.snoopable_eq]
    simp only [List.mem_cons, or_and_right, exists_or, exists_eq_left]

/-! ### Snooping against the wildcard match -/

theorem toLower_star : Char.toLower '*' = '*' := by decide

theorem map_toLower_candidate (d : List Char) (p : Nat) :
    ('*' :: d.drop p).map Char.toLower = '*' :: (d.map Char.toLower).drop p := by
  rw [List.map_cons, toLower_star, List.map_drop]

theorem NamesKeyed.lookup_record_iff {h : FqdnHdl} (keyed : NamesKeyed h) {k : List Char}
    (lower : k.map Char.toLower = k) {e : NameEntry} (mem : e ∈ h.nameMap) :
    (∃ e', nameLookup h k = some e' ∧ e'.r = e.r) ↔ (h.record e.r).name = k := by
  constructor
  · rintro ⟨e', found, same⟩
    rw [← same]
    exact (keyed.nameLookup_eq_some lower (nameLookup_mem found)).mp found
  · intro named
    exact ⟨e, (keyed.nameLookup_eq_some lower mem).mpr named, rfl⟩

theorem snoopedFqdnIpv4Mapping_eq_foldl (h : FqdnHdl) (d : List Char) (ips : List UInt32) :
    snoopedFqdnIpv4Mapping h d ips =
      (d.map Char.toLower :: wildcardCandidates (strlcpy (d.map Char.toLower) maxFqdnLen)).foldl
        (snoopAssociate ips) h := rfl

theorem snoop_keys_lower {d : List Char} (short : d.length < maxFqdnLen) :
    ∀ k ∈ d.map Char.toLower :: wildcardCandidates (strlcpy (d.map Char.toLower) maxFqdnLen),
      k.map Char.toLower = k := by
  intro k mem
  rcases List.mem_cons.mp mem with rfl | candidate
  · exact map_toLower_map_toLower d
  · obtain ⟨p, q, -, -, -, -, -, rfl⟩ := ((matchFqdnWildcardName_spec d [] short).2 k).mp candidate
    rw [List.map_cons, toLower_star, ← List.map_drop, map_toLower_map_toLower]

theorem mem_candidates_iff_match {d w : List Char} (short : d.length < maxFqdnLen)
    (lower : w.map Char.toLower = w) :
    w ∈ wildcardCandidates (strlcpy (d.map Char.toLower) maxFqdnLen) ↔
      matchFqdnWildcardName d w = true := by
  obtain ⟨matching, candidates⟩ := matchFqdnWildcardName_spec d w short
  rw [matching, candidates]
  simp only [strcaseEq_iff_of_lower lower, map_toLower_candidate]

theorem snoopedFqdnIpv4Mapping_wildcard {h : FqdnHdl} (inv : FqdnInv h) (keyed : NamesKeyed h)
    {e : NameEntry} (entry : e ∈ h.nameMap) (snoop : snoopable (h.record e.r) = true)
    {d : List Char} (short : d.length < maxFqdnLen) (ips : List UInt32) (ip : UInt32) :
    (ip ∈ ((snoopedFqdnIpv4Mapping h d ips).record e.r).iplist ↔
      ip ∈ (h.record e.r).iplist ∨
        ip ∈ ips ∧ ((h.record e.r).name = d.map Char.toLower ∨
          matchFqdnWildcardName d (h.record e.r).name = true)) ∧
    (matchFqdnWildcardName d (h.record e.r).name = true ↔
      ∃ p q, 1 ≤ p ∧ p < q ∧ q + 2 ≤ d.length ∧ d.getD p ' ' = '.' ∧ d.getD q ' ' = '.' ∧
        strcaseEq (h.record e.r).name ('*' :: d.drop p) = true) := by
  have within : h.EntriesIn := fun e' mem =>
    ((inv.shape.linked e'.r).mp (List.mem_map_of_mem mem)).1
  have lower := keyed.lower e entry
  refine ⟨?_, (matchFqdnWildcardName_spec d _ short).1⟩
  rw [snoopedFqdnIpv4Mapping_eq_foldl, (foldl_snoopAssociate_adds ips _ within).iplist]
  -- every key tried is lower case, so one finds the record exactly when it is the record's name
  have tried : (∃ key ∈ d.map Char.toLower :: wildcardCandidates (strlcpy (d.map Char.toLower) maxFqdnLen),
      ∃ e', nameLookup h key = some e' ∧ e'.r = e.r) ↔
      (h.record e.r).name = d.map Char.toLower ∨ matchFqdnWildcardName d (h.record e.r).name = true := by
    constructor
    · rintro ⟨key, mem, found⟩
      have named := (keyed.lookup_record_iff (snoop_keys_lower short key mem) entry).mp found
      rcases List.mem_cons.mp mem with rfl | candidate
      · exact .inl named
      · rw [← named] at candidate
        exact .inr ((mem_candidates_iff_match short lower).mp candidate)
    · rintro (named | matched)
      · exact ⟨_, List.mem_cons_self, (keyed.lookup_record_iff (map_toLower_map_toLower d) entry).mpr named⟩
      · have candidate := List.mem_cons_of_mem (d.map Char.toLower)
          ((mem_candidates_iff_match short lower).mpr matched)
        exact ⟨_, candidate, (keyed.lookup_record_iff (snoop_keys_lower short _ candidate) entry).mpr rfl⟩
  rw [tried, snoop]
  exact or_congr_right ⟨fun ⟨named, _, mem⟩ => ⟨mem, named⟩, fun ⟨mem, named⟩ => ⟨named, rfl, mem⟩⟩

def wildcardHdl : FqdnHdl := fqdnRun [.config ['*', '.', 'b', '.', 'c', 'o', 'm'] 7 false]

theorem snoopedFqdnIpv4Mapping_wildcard_host :
    NamesKeyed wildcardHdl ∧
      9 ∈ ((snoopedFqdnIpv4Mapping wildcardHdl ['x', '.', 'B', '.', 'c', 'o', 'm'] [9]).record 0).iplist := by
  have keyed : NamesKeyed wildcardHdl := ⟨by decide, by decide, by decide⟩
  refine ⟨keyed, ((snoopedFqdnIpv4Mapping_wildcard (fqdnRun_inv _) keyed
    (e := ⟨['*', '.', 'b', '.', 'c', 'o', 'm'], 0⟩) (by decide) (by decide) (by decide) [9] 9).1.mpr
      (.inr ⟨by decide, .inr (by decide)⟩))⟩

/-- Where the claim's picture fails. A trailing dot is never a further dot: `*.b.` is `*` and the
suffix of `a.b.` from its dot at 1, with a further dot at 3, yet neither the match nor snooping
takes it. And the name map hashes a record's name as configured, so snooping, which looks up
lower-case names only, misses an upper-case wildcard record that the match covers. -/
theorem snoopedFqdnIpv4Mapping_misses :
    (['a', '.', 'b', '.'].getD 1 ' ' = '.' ∧ ['a', '.', 'b', '.'].getD 3 ' ' = '.' ∧
      ['*', '.', 'b', '.'] = '*' :: ['a', '.', 'b', '.'].drop 1) ∧
    matchFqdnWildcardName ['a', '.', 'b', '.'] ['*', '.', 'b', '.'] = false ∧
    9 ∉ ((snoopedFqdnIpv4Mapping (fqdnRun [.config ['*', '.', 'b', '.'] 7 false])
      ['a', '.', 'b', '.'] [9]).record 0).iplist ∧
    matchFqdnWildcardName ['x', '.', 'b', '.', 'c', 'o', 'm'] ['*', '.', 'B', '.', 'c', 'o', 'm'] = true ∧
    9 ∉ ((snoopedFqdnIpv4Mapping (fqdnRun [.config ['*', '.', 'B', '.', 'c', 'o', 'm'] 7 false])
      ['x', '.', 'b', '.', 'c', 'o', 'm'] [9]).record 0).iplist := by
  decide

end MicroSegment.Dpi
