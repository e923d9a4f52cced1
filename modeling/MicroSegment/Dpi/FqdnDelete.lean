import MicroSegment.Dpi.FqdnInv

/-!
# The delete pass keeps the handle consistent

A round of `dpi_fqdn_entry_delete_marked` walks `fqdn_name_map` and queues the entries of marked
records, at most `DPI_FQDN_DELETE_QLEN` of them, flagging their records as being deleted
(`NameWalk`). While it queued any, it walks `fqdn_ipv4_map` again and again, each time moving
the items of those records out of every `rlist` and freeing the entries left with none, until a
walk meets no full queue: then every entry is as `FqdnHdl.clean` leaves it (`ipv4Loop_result`).
Last, `free_fqdn_name` frees the queued records and their codes (`freeFqdnName_record`,
`freeFqdnName_bit`). Each round keeps `FqdnInv` (`FqdnInv.deleteMarkedRound`), and a round that asks
for another has emptied a full queue, so the loop ends within its fuel with no marked record
left (`deleteMarked_finishes`).
-/

namespace MicroSegment.Dpi

open MicroSegment.Dp

/-- A record marked for deletion by `dpi_fqdn_entry_mark_delete`. -/
def FqdnHdl.marked (h : FqdnHdl) (r : Nat) : Bool := (h.record r).flag &&& fqdnRecordToDelete ≠ 0

/-- The record as `enqueue_fqdn_name_to_del` leaves it. -/
def FqdnRecord.setDeleted (rec : FqdnRecord) : FqdnRecord :=
  { rec with flag := rec.flag ||| fqdnRecordDeleted }

theorem FqdnRecord.setDeleted_setDeleted (rec : FqdnRecord) :
    rec.setDeleted.setDeleted = rec.setDeleted := by
  simp [FqdnRecord.setDeleted]

theorem toDelete_setDeleted (rec : FqdnRecord) :
    rec.setDeleted.flag &&& fqdnRecordToDelete = rec.flag &&& fqdnRecordToDelete := by
  unfold FqdnRecord.setDeleted
  rw [Nat.and_or_distrib_right, show fqdnRecordDeleted &&& fqdnRecordToDelete = 0 by decide,
    Nat.or_zero]

theorem deleted_setDeleted (rec : FqdnRecord) :
    rec.setDeleted.flag &&& fqdnRecordDeleted ≠ 0 := by
  unfold FqdnRecord.setDeleted
  rw [Nat.and_or_distrib_right, Nat.and_self]
  intro zero
  have := Nat.or_eq_zero_iff.mp zero
  exact absurd this.2 (by decide)

theorem FqdnHdl.lt_of_marked {h : FqdnHdl} {r : Nat} (marked : h.marked r = true) :
    r < h.records.length := by
  by_contra beyond
  unfold FqdnHdl.marked FqdnHdl.record at marked
  rw [List.getD_eq_default _ _ (by omega)] at marked
  exact absurd marked (by decide)

/-! ### The walk of `fqdn_name_map` -/

/-- The handle during the walk of `fqdn_name_map` from `h₀`, whose queue was empty: the queued
entries are of marked records, which are flagged as being deleted, and nothing else changed. -/
structure NameWalk (h₀ s : FqdnHdl) : Prop where
  rest : { s with records := h₀.records, delNameList := [] } = h₀
  length : s.records.length = h₀.records.length
  record : ∀ r, s.record r =
    if r ∈ s.delNameList.map (·.r) then (h₀.record r).setDeleted else h₀.record r
  queued : ∀ q ∈ s.delNameList, h₀.marked q.r = true

section NameWalk

variable {h₀ s : FqdnHdl}

theorem NameWalk.marked (walk : NameWalk h₀ s) (r : Nat) : s.marked r = h₀.marked r := by
  unfold FqdnHdl.marked
  rw [walk.record]
  split
  · rw [toDelete_setDeleted]
  · rfl

theorem NameWalk.ipv4Map (walk : NameWalk h₀ s) : s.ipv4Map = h₀.ipv4Map := by
  have same := congrArg FqdnHdl.ipv4Map walk.rest
  exact same

theorem NameWalk.bm (walk : NameWalk h₀ s) : s.bm = h₀.bm := by
  have same := congrArg FqdnHdl.bm walk.rest
  exact same

theorem NameWalk.ipv4_idle (walk : NameWalk h₀ s) : s.delIpv4List = h₀.delIpv4List := by
  have same := congrArg FqdnHdl.delIpv4List walk.rest
  exact same

theorem NameWalk.rlist_idle (walk : NameWalk h₀ s) : s.delRlist = h₀.delRlist := by
  have same := congrArg FqdnHdl.delRlist walk.rest
  exact same

theorem NameWalk.code (walk : NameWalk h₀ s) (r : Nat) : (s.record r).code = (h₀.record r).code := by
  rw [walk.record]
  split <;> rfl

theorem NameWalk.start (idle : h₀.delNameList = []) : NameWalk h₀ h₀ where
  rest := by rw [← idle]
  length := rfl
  record r := by rw [idle]; rfl
  queued q mem := by rw [idle] at mem; exact absurd mem List.not_mem_nil

theorem NameWalk.check (walk : NameWalk h₀ s) (e : NameEntry) :
    NameWalk h₀ (checkFqdnNameEntry s e).1 := by
  unfold checkFqdnNameEntry enqueueFqdnNameToDel
  by_cases mark : (s.record e.r).flag &&& fqdnRecordToDelete ≠ 0
  · rw [if_pos mark]
    by_cases full : s.delNameList.length = dpiFqdnDeleteQlen
    · rw [if_pos full]
      exact walk
    · rw [if_neg full]
      have marked : s.marked e.r = true := decide_eq_true mark
      have lt : e.r < s.records.length := FqdnHdl.lt_of_marked marked
      refine ⟨?_, ?_, fun r => ?_, fun q mem => ?_⟩
      · show { s with records := h₀.records, delNameList := [] } = h₀
        exact walk.rest
      · rw [FqdnHdl.records_length_modifyRecord]
        exact walk.length
      · show (s.modifyRecord e.r _).record r = _
        rw [s.record_modifyRecord _ lt]
        have member : r ∈ (s.delNameList ++ [e]).map (·.r) ↔
            r ∈ s.delNameList.map (·.r) ∨ r = e.r := by simp
        by_cases same : r = e.r
        · subst same
          rw [if_pos rfl, if_pos (member.mpr (.inr rfl))]
          show (s.record e.r).setDeleted = _
          rw [walk.record]
          split
          · exact FqdnRecord.setDeleted_setDeleted _
          · rfl
        · rw [if_neg same, walk.record]
          by_cases old : r ∈ s.delNameList.map (·.r)
          · rw [if_pos old, if_pos (member.mpr (.inl old))]
          · rw [if_neg old, if_neg (fun m => (member.mp m).elim old same)]
      · rcases List.mem_append.mp mem with old | new
        · exact walk.queued q old
        · rw [List.mem_singleton.mp new, ← walk.marked]
          exact marked
  · rw [if_neg mark]
    exact walk

theorem checkFqdnNameEntry_eq (s : FqdnHdl) (e : NameEntry) :
    checkFqdnNameEntry s e =
      if s.marked e.r then
        if s.delNameList.length = dpiFqdnDeleteQlen then (s, some e, true)
        else ({ s.modifyRecord e.r FqdnRecord.setDeleted with delNameList := s.delNameList ++ [e] },
          none, false)
      else (s, some e, false) := by
  unfold checkFqdnNameEntry enqueueFqdnNameToDel FqdnHdl.marked
  by_cases mark : (s.record e.r).flag &&& fqdnRecordToDelete ≠ 0
  · rw [if_pos mark, if_pos (decide_eq_true mark)]
    by_cases full : s.delNameList.length = dpiFqdnDeleteQlen
    · rw [if_pos full, if_pos full]
    · rw [if_neg full, if_neg full]
      rfl
  · rw [if_neg mark, if_neg (by simpa using mark)]

theorem checkFqdnNameEntry_moves (s : FqdnHdl) (e : NameEntry) :
    ((checkFqdnNameEntry s e).2.1 = some e ∧
        (checkFqdnNameEntry s e).1.delNameList = s.delNameList) ∨
      ((checkFqdnNameEntry s e).2.1 = none ∧
        (checkFqdnNameEntry s e).1.delNameList = s.delNameList ++ [e]) := by
  rw [checkFqdnNameEntry_eq]
  split
  · split
    · exact .inl ⟨rfl, rfl⟩
    · exact .inr ⟨rfl, rfl⟩
  · exact .inl ⟨rfl, rfl⟩

theorem checkFqdnNameEntry_stops (s : FqdnHdl) (e : NameEntry)
    (stop : (checkFqdnNameEntry s e).2.2 = true) :
    (checkFqdnNameEntry s e).1.delNameList.length = dpiFqdnDeleteQlen := by
  rw [checkFqdnNameEntry_eq] at stop ⊢
  by_cases mark : s.marked e.r = true
  · rw [if_pos mark] at stop ⊢
    by_cases full : s.delNameList.length = dpiFqdnDeleteQlen
    · rw [if_pos full]
      exact full
    · rw [if_neg full] at stop
      exact Bool.noConfusion stop
  · rw [if_neg mark] at stop
    exact Bool.noConfusion stop

theorem NameWalk.check_finished (walk : NameWalk h₀ s) (e : NameEntry)
    (finished : (checkFqdnNameEntry s e).2.2 = false) :
    (checkFqdnNameEntry s e).2.1 = if h₀.marked e.r then none else some e := by
  rw [← walk.marked]
  rw [checkFqdnNameEntry_eq] at finished ⊢
  by_cases mark : s.marked e.r = true
  · rw [if_pos mark] at finished ⊢
    rw [if_pos mark]
    by_cases full : s.delNameList.length = dpiFqdnDeleteQlen
    · rw [if_pos full] at finished
      exact Bool.noConfusion finished
    · rw [if_neg full]
  · rw [if_neg mark, if_neg mark]

theorem nameWalk_result (idle : h₀.delNameList = []) :
    let w := MapWalk.walk checkFqdnNameEntry h₀.nameMap h₀
    NameWalk h₀ w.1 ∧ (w.1.delNameList ++ w.2.1).Perm h₀.nameMap ∧
      (w.2.2 = true → w.1.delNameList.length = dpiFqdnDeleteQlen) ∧
      (w.2.2 = false → w.2.1 = h₀.nameMap.filter fun e => !h₀.marked e.r) := by
  intro w
  have keeps : ∀ s e, NameWalk h₀ s → NameWalk h₀ (checkFqdnNameEntry s e).1 :=
    fun _ e walk => walk.check e
  have start := NameWalk.start idle
  refine ⟨MapWalk.walk_inv _ _ keeps _ _ start, ?_, ?_, fun finished => ?_⟩
  · have moved := MapWalk.walk_perm _ _ (·.delNameList) keeps
      (fun s e _ => checkFqdnNameEntry_moves s e) h₀.nameMap h₀ start
    rwa [idle, List.nil_append] at moved
  · exact MapWalk.walk_stopped _ _ (fun s => s.delNameList.length = dpiFqdnDeleteQlen) keeps
      (fun s e _ stop => checkFqdnNameEntry_stops s e stop) _ _ start
  · rw [← List.filterMap_eq_filter]
    apply MapWalk.walk_of_finished _ _ _ keeps _ _ _ start finished
    intro s e walk unstopped
    rw [walk.check_finished e unstopped, Option.guard_apply]
    cases h₀.marked e.r <;> rfl

end NameWalk

/-! ### The walks of `fqdn_ipv4_map` -/

def cleanBy (gone : Nat → Bool) (e : Ipv4Entry) : Option Ipv4Entry :=
  if e.rlist.filter (fun r => !gone r) = [] then none
  else some { e with rlist := e.rlist.filter fun r => !gone r }

theorem cleanBy_idem {gone : Nat → Bool} {a b : Ipv4Entry} (cleaned : cleanBy gone a = some b) :
    cleanBy gone b = some b := by
  unfold cleanBy at cleaned ⊢
  split at cleaned
  · cases cleaned
  · next kept =>
    rw [← Option.some.inj cleaned]
    simp only [List.filter_filter, Bool.and_self]
    rw [if_neg kept]

theorem mem_filterMap_cleanBy {gone : Nat → Bool} {l : List Ipv4Entry} {e : Ipv4Entry} :
    e ∈ l.filterMap (cleanBy gone) ↔
      ∃ e₀ ∈ l, e.ip = e₀.ip ∧ e.rlist = e₀.rlist.filter (fun r => !gone r) ∧ e.rlist ≠ [] := by
  rw [List.mem_filterMap]
  constructor
  · rintro ⟨e₀, mem, cleaned⟩
    unfold cleanBy at cleaned
    split at cleaned
    · cases cleaned
    · next kept =>
      rw [← Option.some.inj cleaned]
      exact ⟨e₀, mem, rfl, rfl, kept⟩
  · rintro ⟨e₀, mem, ip, rlist, kept⟩
    refine ⟨e₀, mem, ?_⟩
    unfold cleanBy
    rw [← rlist, if_neg kept, rlist]
    cases e
    simp_all

/-- The handle during the walks of `fqdn_ipv4_map` from `S`: only the map and the queues of IP
entries and `rlist` items change. -/
def Ipv4Walk (S s : FqdnHdl) : Prop :=
  { s with ipv4Map := S.ipv4Map, delIpv4List := S.delIpv4List, delRlist := S.delRlist } = S

section Ipv4Walk

variable {S s : FqdnHdl}

theorem Ipv4Walk.records (walk : Ipv4Walk S s) : s.records = S.records := by
  unfold Ipv4Walk at walk
  have same := congrArg FqdnHdl.records walk
  exact same

theorem Ipv4Walk.deleted (walk : Ipv4Walk S s) : s.deleted = S.deleted := by
  funext r
  unfold FqdnHdl.deleted FqdnHdl.record
  rw [walk.records]

theorem Ipv4Walk.nameMap (walk : Ipv4Walk S s) : s.nameMap = S.nameMap := by
  have same := congrArg FqdnHdl.nameMap walk
  exact same

theorem Ipv4Walk.bm (walk : Ipv4Walk S s) : s.bm = S.bm := by
  have same := congrArg FqdnHdl.bm walk
  exact same

theorem Ipv4Walk.names (walk : Ipv4Walk S s) : s.delNameList = S.delNameList := by
  have same := congrArg FqdnHdl.delNameList walk
  exact same

theorem Ipv4Walk.record (walk : Ipv4Walk S s) (r : Nat) : s.record r = S.record r := by
  unfold FqdnHdl.record
  rw [walk.records]

theorem checkFqdnIpv4Entry_eq (s : FqdnHdl) (e : Ipv4Entry) :
    checkFqdnIpv4Entry s e =
      if e.rlist.filter (fun r => !s.deleted r) = [] then
        if s.delIpv4List.length = dpiFqdnDeleteQlen then
          ({ s with delRlist := s.delRlist ++ e.rlist.filter s.deleted },
            some { e with rlist := [] }, true)
        else
          ({ s with delRlist := s.delRlist ++ e.rlist.filter s.deleted,
                    delIpv4List := s.delIpv4List ++ [{ e with rlist := [] }] }, none, false)
      else
        ({ s with delRlist := s.delRlist ++ e.rlist.filter s.deleted },
          some { e with rlist := e.rlist.filter fun r => !s.deleted r }, false) := by
  unfold checkFqdnIpv4Entry enqueueFqdnIpv4ToDel
  by_cases empty : e.rlist.filter (fun r => !s.deleted r) = []
  · rw [if_pos empty, if_pos empty]
    by_cases full : s.delIpv4List.length = dpiFqdnDeleteQlen
    · rw [if_pos full, if_pos full, empty]
    · rw [if_neg full, if_neg full, empty]
  · rw [if_neg empty, if_neg empty]

theorem Ipv4Walk.check (walk : Ipv4Walk S s) (e : Ipv4Entry) :
    Ipv4Walk S (checkFqdnIpv4Entry s e).1 := by
  rw [checkFqdnIpv4Entry_eq]
  split <;> (try split) <;> exact walk

theorem Ipv4Walk.check_clean (walk : Ipv4Walk S s) (e : Ipv4Entry) :
    (checkFqdnIpv4Entry s e).2.1.bind (cleanBy S.deleted) = cleanBy S.deleted e := by
  rw [checkFqdnIpv4Entry_eq, walk.deleted]
  by_cases empty : e.rlist.filter (fun r => !S.deleted r) = []
  · rw [if_pos empty]
    unfold cleanBy
    rw [if_pos empty]
    split <;> simp
  · rw [if_neg empty]
    unfold cleanBy
    rw [if_neg empty]
    simp only [Option.bind_some, List.filter_filter, Bool.and_self]
    rw [if_neg empty]

theorem Ipv4Walk.check_finished (walk : Ipv4Walk S s) (e : Ipv4Entry)
    (finished : (checkFqdnIpv4Entry s e).2.2 = false) :
    (checkFqdnIpv4Entry s e).2.1 = cleanBy S.deleted e := by
  rw [checkFqdnIpv4Entry_eq, walk.deleted] at *
  unfold cleanBy
  by_cases empty : e.rlist.filter (fun r => !S.deleted r) = []
  · rw [if_pos empty] at finished ⊢
    rw [if_pos empty]
    by_cases full : s.delIpv4List.length = dpiFqdnDeleteQlen
    · rw [if_pos full] at finished
      exact Bool.noConfusion finished
    · rw [if_neg full]
  · rw [if_neg empty, if_neg empty]

theorem checkFqdnIpv4Entry_counts (s : FqdnHdl) (e : Ipv4Entry) :
    (checkFqdnIpv4Entry s e).1.delIpv4List.length + (checkFqdnIpv4Entry s e).2.1.toList.length =
      s.delIpv4List.length + 1 := by
  rw [checkFqdnIpv4Entry_eq]
  split
  · split <;> simp
  · simp

theorem checkFqdnIpv4Entry_stops (s : FqdnHdl) (e : Ipv4Entry)
    (stop : (checkFqdnIpv4Entry s e).2.2 = true) :
    (checkFqdnIpv4Entry s e).1.delIpv4List.length = dpiFqdnDeleteQlen := by
  rw [checkFqdnIpv4Entry_eq] at stop ⊢
  by_cases empty : e.rlist.filter (fun r => !s.deleted r) = []
  · rw [if_pos empty] at stop ⊢
    by_cases full : s.delIpv4List.length = dpiFqdnDeleteQlen
    · rw [if_pos full]
      exact full
    · rw [if_neg full] at stop
      exact Bool.noConfusion stop
  · rw [if_neg empty] at stop
    exact Bool.noConfusion stop

/-- The handle between two walks of `fqdn_ipv4_map` from `S`: the queue of entries is empty, and
the map, seen through `cleanBy`, is `S`'s. -/
structure Ipv4Round (S s : FqdnHdl) : Prop where
  walk : Ipv4Walk S s
  idle : s.delIpv4List = []
  clean : s.ipv4Map.filterMap (cleanBy S.deleted) = S.ipv4Map.filterMap (cleanBy S.deleted)

theorem ipv4Round_eq (s : FqdnHdl) :
    ipv4Round s =
      let w := MapWalk.walk checkFqdnIpv4Entry s.ipv4Map s
      (if w.1.delIpv4List.length > 0 then freeFqdnIpv4 { w.1 with ipv4Map := w.2.1 }
        else { w.1 with ipv4Map := w.2.1 }, w.2.2) := rfl

theorem Ipv4Round.start (idle : S.delIpv4List = []) : Ipv4Round S S :=
  ⟨rfl, idle, rfl⟩

theorem Ipv4Round.keeps (round : Ipv4Round S s) : Ipv4Round S (ipv4Round s).1 := by
  have keeps : ∀ s e, Ipv4Walk S s → Ipv4Walk S (checkFqdnIpv4Entry s e).1 :=
    fun _ e walk => walk.check e
  have walked := MapWalk.walk_inv _ _ keeps s.ipv4Map s round.walk
  have clean := MapWalk.filterMap_walk _ _ _ (fun _ _ => cleanBy_idem) keeps
    (fun _ e walk => walk.check_clean e) s.ipv4Map s round.walk
  rw [ipv4Round_eq]
  generalize MapWalk.walk checkFqdnIpv4Entry s.ipv4Map s = w at walked clean
  obtain ⟨s', m, more⟩ := w
  dsimp only at walked clean ⊢
  split
  · exact ⟨walked, rfl, clean.trans round.clean⟩
  · next empty =>
    have none : s'.delIpv4List.length = 0 := Nat.eq_zero_of_not_pos empty
    exact ⟨walked, List.eq_nil_of_length_eq_zero none, clean.trans round.clean⟩

theorem Ipv4Round.lowers (round : Ipv4Round S s) (more : (ipv4Round s).2 = true) :
    (ipv4Round s).1.ipv4Map.length < s.ipv4Map.length := by
  have keeps : ∀ s e, Ipv4Walk S s → Ipv4Walk S (checkFqdnIpv4Entry s e).1 :=
    fun _ e walk => walk.check e
  have full := MapWalk.walk_stopped _ _ (fun s => s.delIpv4List.length = dpiFqdnDeleteQlen) keeps
    (fun s e _ stop => checkFqdnIpv4Entry_stops s e stop) s.ipv4Map s round.walk more
  have counted := MapWalk.walk_length _ _ (fun s => s.delIpv4List.length) keeps
    (fun s e _ => checkFqdnIpv4Entry_counts s e) s.ipv4Map s round.walk
  rw [round.idle, List.length_nil] at counted
  rw [ipv4Round_eq]
  generalize MapWalk.walk checkFqdnIpv4Entry s.ipv4Map s = w at full counted
  obtain ⟨s', m, stop⟩ := w
  dsimp only at full counted ⊢
  unfold dpiFqdnDeleteQlen at full
  have shorter : m.length < s.ipv4Map.length := by omega
  split <;> exact shorter

theorem Ipv4Round.finished (round : Ipv4Round S s) (finished : (ipv4Round s).2 = false) :
    (ipv4Round s).1.ipv4Map = S.ipv4Map.filterMap (cleanBy S.deleted) := by
  have keeps : ∀ s e, Ipv4Walk S s → Ipv4Walk S (checkFqdnIpv4Entry s e).1 :=
    fun _ e walk => walk.check e
  have all := MapWalk.walk_of_finished _ _ _ keeps (fun _ e walk => walk.check_finished e)
    s.ipv4Map s round.walk finished
  rw [ipv4Round_eq]
  generalize MapWalk.walk checkFqdnIpv4Entry s.ipv4Map s = w at all
  obtain ⟨s', m, stop⟩ := w
  dsimp only at all ⊢
  split <;> exact all.trans round.clean

/-- The `do ... while` loop over `fqdn_ipv4_map` ends within its fuel, with every entry as
`cleanBy` leaves it and nothing else changed. -/
theorem ipv4Loop_result (idle : S.delIpv4List = []) :
    Ipv4Walk S (MapWalk.repeatWhile ipv4Round (S.ipv4Map.length + 1) S) ∧
      (MapWalk.repeatWhile ipv4Round (S.ipv4Map.length + 1) S).delIpv4List = [] ∧
      (MapWalk.repeatWhile ipv4Round (S.ipv4Map.length + 1) S).ipv4Map =
        S.ipv4Map.filterMap (cleanBy S.deleted) := by
  obtain ⟨last, round, finished, result⟩ := MapWalk.repeatWhile_finishes ipv4Round (Ipv4Round S)
    (fun s => s.ipv4Map.length) (fun _ round => round.keeps) (fun _ round more => round.lowers more)
    (S.ipv4Map.length + 1) S (Ipv4Round.start idle) (Nat.lt_succ_self _)
  rw [result]
  exact ⟨round.keeps.walk, round.keeps.idle, round.finished finished⟩

end Ipv4Walk

/-! ### `free_fqdn_name` -/

/-- The record as `free_fqdn_name` leaves it: its IP items freed, and itself. -/
def FqdnRecord.release (rec : FqdnRecord) : FqdnRecord :=
  { rec with iplist := [], ipCnt := rec.ipCnt - rec.iplist.length, freed := true }

theorem FqdnRecord.release_release (rec : FqdnRecord) : rec.release.release = rec.release := by
  simp [FqdnRecord.release]

theorem freeFqdnRecord_eq (h : FqdnHdl) (e : NameEntry) :
    freeFqdnRecord h e =
      { h.modifyRecord e.r FqdnRecord.release with
        bm := bitmapClear h.bm (codeIndex (h.record e.r).code - 1) } := rfl

-- The fields one at a time: a proof that compared the cleared bitmap with another would make the
-- kernel unfold the byte swap of the code.
theorem records_freeFqdnRecord (h : FqdnHdl) (e : NameEntry) :
    (freeFqdnRecord h e).records = (h.modifyRecord e.r FqdnRecord.release).records := by
  rw [freeFqdnRecord_eq]

theorem bm_freeFqdnRecord (h : FqdnHdl) (e : NameEntry) :
    (freeFqdnRecord h e).bm = bitmapClear h.bm (codeIndex (h.record e.r).code - 1) := by
  rw [freeFqdnRecord_eq]

theorem rest_freeFqdnRecord (h : FqdnHdl) (e : NameEntry) :
    { freeFqdnRecord h e with records := h.records, bm := h.bm } = h := by
  rw [freeFqdnRecord_eq]
  rfl

theorem foldl_freeFqdnRecord (Q : List NameEntry) :
    ∀ (h : FqdnHdl), (∀ q ∈ Q, q.r < h.records.length ∧ 1 ≤ codeIndex (h.record q.r).code ∧
        codeIndex (h.record q.r).code ≤ h.bm.bits) →
      { Q.foldl freeFqdnRecord h with records := h.records, bm := h.bm } = h ∧
      (Q.foldl freeFqdnRecord h).records.length = h.records.length ∧
      (∀ r, (Q.foldl freeFqdnRecord h).record r =
        if r ∈ Q.map (·.r) then (h.record r).release else h.record r) ∧
      (Q.foldl freeFqdnRecord h).bm.bits = h.bm.bits ∧
      (∀ k, (Q.foldl freeFqdnRecord h).bm.bit k =
        (h.bm.bit k && !Q.any fun q => codeIndex (h.record q.r).code == k + 1)) := by
  induction Q with
  | nil =>
    intro h _
    refine ⟨rfl, rfl, fun r => ?_, rfl, fun k => ?_⟩ <;> simp
  | cons q Q ih =>
    intro h inside
    obtain ⟨lt, low, high⟩ := inside q List.mem_cons_self
    -- the first record freed: its code's bit cleared, the record released
    have record₁ : ∀ r, (freeFqdnRecord h q).record r =
        if r = q.r then (h.record q.r).release else h.record r := by
      intro r
      unfold FqdnHdl.record
      rw [records_freeFqdnRecord]
      exact h.record_modifyRecord FqdnRecord.release lt r
    have code₁ : ∀ r, ((freeFqdnRecord h q).record r).code = (h.record r).code := by
      intro r
      rw [record₁]
      split
      · next same => rw [same]; rfl
      · rfl
    have bits₁ : (freeFqdnRecord h q).bm.bits = h.bm.bits := by
      rw [bm_freeFqdnRecord, bits_bitmapClear]
    have length₁ : (freeFqdnRecord h q).records.length = h.records.length := by
      rw [records_freeFqdnRecord]
      exact h.records_length_modifyRecord _ _
    have bit₁ : ∀ k, (freeFqdnRecord h q).bm.bit k =
        (h.bm.bit k && !(codeIndex (h.record q.r).code == k + 1)) := by
      intro k
      rw [bm_freeFqdnRecord, bit_bitmapClear _ (by omega)]
      congr 2
      by_cases same : codeIndex (h.record q.r).code = k + 1
      · rw [decide_eq_true (by omega), beq_iff_eq.mpr same]
      · rw [decide_eq_false (by omega), beq_eq_false_iff_ne.mpr same]
    obtain ⟨rest, length, record, bits, bit⟩ := ih (freeFqdnRecord h q) (fun q' mem => by
      obtain ⟨lt', low', high'⟩ := inside q' (List.mem_cons_of_mem q mem)
      rw [length₁, code₁, bits₁]
      exact ⟨lt', low', high'⟩)
    rw [List.foldl_cons]
    refine ⟨(congrArg (fun x : FqdnHdl => { x with records := h.records, bm := h.bm }) rest).trans
      (rest_freeFqdnRecord h q),
      length.trans length₁, fun r => ?_, bits.trans bits₁, fun k => ?_⟩
    · rw [record, record₁, List.map_cons]
      by_cases first : r = q.r
      · subst first
        have head : q.r ∈ q.r :: Q.map (·.r) := List.mem_cons_self
        by_cases later : q.r ∈ Q.map (·.r)
        · rw [if_pos later, if_pos rfl, if_pos head, FqdnRecord.release_release]
        · rw [if_neg later, if_pos rfl, if_pos head]
      · rw [if_neg first]
        by_cases later : r ∈ Q.map (·.r)
        · rw [if_pos later, if_pos (List.mem_cons_of_mem _ later)]
        · rw [if_neg later, if_neg (fun m => (List.mem_cons.mp m).elim first later)]
    · have same_any : (Q.any fun q' => codeIndex ((freeFqdnRecord h q).record q'.r).code == k + 1) =
          Q.any fun q' => codeIndex (h.record q'.r).code == k + 1 := by
        simp only [code₁]
      rw [bit, bit₁, same_any, List.any_cons, Bool.not_or, Bool.and_assoc]

/-! ### A round of the delete pass -/

theorem FqdnHdl.mem_rlistOf_iff {h : FqdnHdl} (nodup : (h.ipv4Map.map (·.ip)).Nodup) {ip : UInt32}
    {r : Nat} : r ∈ h.rlistOf ip ↔ ∃ e ∈ h.ipv4Map, e.ip = ip ∧ r ∈ e.rlist := by
  constructor
  · intro mem
    obtain ⟨e, found, member⟩ := FqdnHdl.mem_rlistOf.mp mem
    obtain ⟨inside, at_ip⟩ := ipv4Lookup_spec found
    exact ⟨e, inside, at_ip, member⟩
  · rintro ⟨e, inside, rfl, member⟩
    rw [FqdnHdl.rlistOf_of_mem nodup inside]
    exact member

theorem filterMap_cleanBy_congr {g₁ g₂ : Nat → Bool} {l : List Ipv4Entry}
    (agree : ∀ e ∈ l, ∀ r ∈ e.rlist, g₁ r = g₂ r) :
    l.filterMap (cleanBy g₁) = l.filterMap (cleanBy g₂) := by
  apply List.filterMap_congr
  intro e mem
  have kept : e.rlist.filter (fun r => !g₁ r) = e.rlist.filter (fun r => !g₂ r) :=
    List.filter_congr fun r member => by rw [agree e mem r member]
  unfold cleanBy
  rw [kept]

theorem filterMap_cleanBy_none {l : List Ipv4Entry} (ne : ∀ e ∈ l, e.rlist ≠ []) :
    l.filterMap (cleanBy fun _ => false) = l := by
  have each : ∀ e ∈ l, cleanBy (fun _ => false) e = some e := by
    intro e mem
    unfold cleanBy
    simp only [Bool.not_false, List.filter_true]
    rw [if_neg (ne e mem)]
  rw [List.filterMap_congr each, List.filterMap_some]

theorem cleanBy_ip {gone : Nat → Bool} {e b : Ipv4Entry} (clean : cleanBy gone e = some b) :
    b.ip = e.ip := by
  unfold cleanBy at clean
  split at clean
  · cases clean
  · rw [← Option.some.inj clean]

theorem ips_filterMap_cleanBy (gone : Nat → Bool) :
    ∀ l : List Ipv4Entry, ((l.filterMap (cleanBy gone)).map (·.ip)).Sublist (l.map (·.ip))
  | [] => .slnil
  | e :: l => by
    have rest := ips_filterMap_cleanBy gone l
    cases clean : cleanBy gone e with
    | none =>
      rw [List.filterMap_cons_none clean]
      exact rest.cons e.ip
    | some b =>
      rw [List.filterMap_cons_some clean, List.map_cons, List.map_cons, cleanBy_ip clean]
      exact rest.cons_cons e.ip

/-- What a round of the delete pass did, seen from the handle before it: it took the entries `Q`
out of `fqdn_name_map`, flagged and freed their records with their codes, and took the records
out of every `rlist`, freeing the IP entries left with none. -/
structure Deleted (h h' : FqdnHdl) (Q : List NameEntry) : Prop where
  perm : (Q ++ h'.nameMap).Perm h.nameMap
  length : h'.records.length = h.records.length
  record : ∀ r, h'.record r =
    if r ∈ Q.map (·.r) then (h.record r).setDeleted.release else h.record r
  bits : h'.bm.bits = h.bm.bits
  bit : ∀ k, h'.bm.bit k = (h.bm.bit k && !Q.any fun q => codeIndex (h.record q.r).code == k + 1)
  ipv4Map : h'.ipv4Map = h.ipv4Map.filterMap (cleanBy fun r => decide (r ∈ Q.map (·.r)))
  names_idle : h'.delNameList = []
  ipv4_idle : h'.delIpv4List = []
  rlist_idle : h'.delRlist = []

section Deleted

variable {h h' : FqdnHdl} {Q : List NameEntry} (inv : FqdnInv h) (del : Deleted h h' Q)
include inv del

theorem Deleted.queued_live {q : NameEntry} (mem : q ∈ Q) : h.Live q.r := by
  apply (inv.shape.linked q.r).mp
  apply List.mem_map_of_mem
  exact del.perm.subset (List.mem_append_left _ mem)

omit inv in
theorem Deleted.live_iff (r : Nat) : h'.Live r ↔ h.Live r ∧ r ∉ Q.map (·.r) := by
  unfold FqdnHdl.Live
  rw [del.length, del.record]
  by_cases queued : r ∈ Q.map (·.r)
  · rw [if_pos queued]
    simp [FqdnRecord.release, queued]
  · rw [if_neg queued]
    simp [queued]

omit inv in
theorem Deleted.record_of_not_mem {r : Nat} (kept : r ∉ Q.map (·.r)) : h'.record r = h.record r := by
  rw [del.record, if_neg kept]

omit inv in
theorem Deleted.record_of_live {r : Nat} (live : h'.Live r) : h'.record r = h.record r :=
  del.record_of_not_mem ((del.live_iff r).mp live).2

theorem Deleted.linked (r : Nat) : r ∈ h'.linked ↔ h.Live r ∧ r ∉ Q.map (·.r) := by
  have perm : (Q.map (·.r) ++ h'.linked).Perm h.linked := by
    unfold FqdnHdl.linked
    rw [← List.map_append]
    exact del.perm.map _
  have nodup : (Q.map (·.r) ++ h'.linked).Nodup := perm.nodup_iff.mpr inv.shape.linked_nodup
  rw [← inv.shape.linked r, ← perm.mem_iff, List.mem_append]
  constructor
  · intro left
    exact ⟨.inr left, fun queued => List.disjoint_of_nodup_append nodup queued left⟩
  · rintro ⟨queued | left, fresh⟩
    · exact absurd queued fresh
    · exact left

theorem Deleted.shape : h'.Shape where
  bits := by rw [del.bits]; exact inv.shape.bits
  names_idle := del.names_idle
  ipv4_idle := del.ipv4_idle
  rlist_idle := del.rlist_idle
  linked r := by rw [del.linked inv r, del.live_iff r]
  linked_nodup := by
    have perm : (Q.map (·.r) ++ h'.linked).Perm h.linked := by
      unfold FqdnHdl.linked
      rw [← List.map_append]
      exact del.perm.map _
    exact (perm.nodup_iff.mpr inv.shape.linked_nodup).sublist (List.sublist_append_right _ _)
  unflagged r live := by
    unfold FqdnHdl.deleted
    rw [del.record_of_live live]
    exact inv.shape.unflagged r ((del.live_iff r).mp live).1

theorem Deleted.codes : h'.CodesOK where
  range r live := by
    rw [del.record_of_live live]
    exact inv.codes.range r ((del.live_iff r).mp live).1
  inj r₁ r₂ live₁ live₂ same := by
    rw [del.record_of_live live₁, del.record_of_live live₂] at same
    exact inv.codes.inj r₁ r₂ ((del.live_iff r₁).mp live₁).1 ((del.live_iff r₂).mp live₂).1
      same
  bitmap k := by
    rw [del.bit, Bool.and_eq_true, inv.codes.bitmap k, Bool.not_eq_true', List.any_eq_false]
    constructor
    · rintro ⟨⟨r, live, code⟩, unqueued⟩
      have kept : r ∉ Q.map (·.r) := by
        intro queued
        obtain ⟨q, mem, rfl⟩ := List.mem_map.mp queued
        exact unqueued q mem (by simp [code])
      refine ⟨r, (del.live_iff r).mpr ⟨live, kept⟩, ?_⟩
      rw [del.record_of_not_mem kept]
      exact code
    · rintro ⟨r, live', code⟩
      obtain ⟨live, kept⟩ := (del.live_iff r).mp live'
      rw [del.record_of_not_mem kept] at code
      refine ⟨⟨r, live, code⟩, fun q mem same => ?_⟩
      have at_r : q.r = r := inv.codes.inj q.r r (del.queued_live inv mem) live
        ((beq_iff_eq.mp same).trans code.symm)
      exact kept (List.mem_map.mpr ⟨q, mem, at_r⟩)

theorem Deleted.assoc : h'.AssocOK where
  ips_nodup := by
    rw [del.ipv4Map]
    exact inv.assoc.ips_nodup.sublist (ips_filterMap_cleanBy _ _)
  rlist_nodup e mem := by
    rw [del.ipv4Map] at mem
    obtain ⟨e₀, inside, -, rlist, -⟩ := mem_filterMap_cleanBy.mp mem
    rw [rlist]
    exact (inv.assoc.rlist_nodup e₀ inside).filter _
  rlist_ne e mem := by
    rw [del.ipv4Map] at mem
    obtain ⟨-, -, -, -, ne⟩ := mem_filterMap_cleanBy.mp mem
    exact ne
  rlist_live e mem r member := by
    rw [del.ipv4Map] at mem
    obtain ⟨e₀, inside, -, rlist, -⟩ := mem_filterMap_cleanBy.mp mem
    rw [rlist, List.mem_filter] at member
    apply (del.live_iff r).mpr
    exact ⟨inv.assoc.rlist_live e₀ inside r member.1, by simpa using member.2⟩
  iplist_nodup r live := by
    rw [del.record_of_live live]
    exact inv.assoc.iplist_nodup r ((del.live_iff r).mp live).1
  ip_cnt r live := by
    rw [del.record_of_live live]
    exact inv.assoc.ip_cnt r ((del.live_iff r).mp live).1
  both r ip live' := by
    obtain ⟨live, kept⟩ := (del.live_iff r).mp live'
    have nodup' : (h'.ipv4Map.map (·.ip)).Nodup := by
      rw [del.ipv4Map]
      exact inv.assoc.ips_nodup.sublist (ips_filterMap_cleanBy _ _)
    rw [del.record_of_live live', inv.assoc.both r ip live,
      FqdnHdl.mem_rlistOf_iff inv.assoc.ips_nodup, FqdnHdl.mem_rlistOf_iff nodup', del.ipv4Map]
    constructor
    · rintro ⟨e₀, inside, at_ip, member⟩
      have left : r ∈ e₀.rlist.filter (fun r => !decide (r ∈ Q.map (·.r))) :=
        List.mem_filter.mpr ⟨member, by rw [decide_eq_false kept]; rfl⟩
      refine ⟨{ e₀ with rlist := e₀.rlist.filter fun r => !decide (r ∈ Q.map (·.r)) }, ?_,
        at_ip, left⟩
      exact mem_filterMap_cleanBy.mpr ⟨e₀, inside, rfl, rfl, List.ne_nil_of_mem left⟩
    · rintro ⟨e, mem, at_ip, member⟩
      obtain ⟨e₀, inside, same_ip, rlist, -⟩ := mem_filterMap_cleanBy.mp mem
      rw [rlist, List.mem_filter] at member
      exact ⟨e₀, inside, same_ip ▸ at_ip, member.1⟩

theorem FqdnInv.of_deleted : FqdnInv h' := ⟨del.shape inv, del.codes inv, del.assoc inv⟩

end Deleted

theorem deleteMarkedRound_eq (h : FqdnHdl) :
    deleteMarkedRound h =
      let w := MapWalk.walk checkFqdnNameEntry h.nameMap h
      let s : FqdnHdl := { w.1 with nameMap := w.2.1 }
      (if s.delNameList.length > 0 then
        freeFqdnName (MapWalk.repeatWhile ipv4Round (s.ipv4Map.length + 1) s)
      else s, w.2.2) := rfl

section Round

variable {h s : FqdnHdl} {m : List NameEntry}

theorem NameWalk.deleted_eq (inv : FqdnInv h) (walk : NameWalk h s) {r : Nat} (live : h.Live r) :
    s.deleted r = decide (r ∈ s.delNameList.map (·.r)) := by
  unfold FqdnHdl.deleted
  rw [walk.record]
  split
  · next queued =>
    rw [decide_eq_true queued]
    exact decide_eq_true (deleted_setDeleted _)
  · next kept =>
    rw [decide_eq_false kept]
    exact inv.shape.unflagged r live

theorem NameWalk.deleted_freed (inv : FqdnInv h) (walk : NameWalk h s)
    (perm : (s.delNameList ++ m).Perm h.nameMap) :
    Deleted h (freeFqdnName (MapWalk.repeatWhile ipv4Round (s.ipv4Map.length + 1)
      { s with nameMap := m })) s.delNameList ∧
    (freeFqdnName (MapWalk.repeatWhile ipv4Round (s.ipv4Map.length + 1)
      { s with nameMap := m })).nameMap = m := by
  have idle : ({ s with nameMap := m } : FqdnHdl).delIpv4List = [] :=
    walk.ipv4_idle.trans inv.shape.ipv4_idle
  obtain ⟨walk', idle', map'⟩ := ipv4Loop_result idle
  generalize MapWalk.repeatWhile ipv4Round (s.ipv4Map.length + 1) { s with nameMap := m } = S'
    at walk' idle' map' ⊢
  have record' : ∀ r, S'.record r = s.record r := fun r => walk'.record r
  have bm' : S'.bm = h.bm := walk'.bm.trans walk.bm
  have names' : S'.delNameList = s.delNameList := walk'.names
  have nameMap' : S'.nameMap = m := walk'.nameMap
  have length' : S'.records.length = h.records.length := by
    rw [walk'.records]
    exact walk.length
  have ipv4Map' : S'.ipv4Map = h.ipv4Map.filterMap (cleanBy ({ s with nameMap := m } : FqdnHdl).deleted) := by
    rw [map']
    exact congrArg (List.filterMap _) walk.ipv4Map
  -- the records queued were live, so their codes stand for bits of the bitmap
  have queued_live : ∀ q ∈ s.delNameList, h.Live q.r := fun q mem =>
    (inv.shape.linked q.r).mp (List.mem_map_of_mem (perm.subset (List.mem_append_left _ mem)))
  have code' : ∀ r, (S'.record r).code = (h.record r).code := fun r => by
    rw [record' r, walk.code]
  have inside : ∀ q ∈ s.delNameList, q.r < S'.records.length ∧
      1 ≤ codeIndex (S'.record q.r).code ∧ codeIndex (S'.record q.r).code ≤ S'.bm.bits := by
    intro q mem
    have live := queued_live q mem
    obtain ⟨low, high⟩ := inv.codes.range q.r live
    rw [length', code', bm', inv.shape.bits]
    exact ⟨live.1, low, high⟩
  obtain ⟨rest, length, record, bits, bit⟩ := foldl_freeFqdnRecord s.delNameList S' inside
  have nameMap : (s.delNameList.foldl freeFqdnRecord S').nameMap = m := by
    have same := congrArg FqdnHdl.nameMap rest
    exact same.trans nameMap'
  have ipv4Map : (s.delNameList.foldl freeFqdnRecord S').ipv4Map =
      h.ipv4Map.filterMap (cleanBy ({ s with nameMap := m } : FqdnHdl).deleted) := by
    have same := congrArg FqdnHdl.ipv4Map rest
    exact same.trans ipv4Map'
  have ipv4_idle : (s.delNameList.foldl freeFqdnRecord S').delIpv4List = [] := by
    have same := congrArg FqdnHdl.delIpv4List rest
    exact same.trans idle'
  have unfold_F : freeFqdnName S' =
      { s.delNameList.foldl freeFqdnRecord S' with delNameList := [], delRlist := [] } := by
    unfold freeFqdnName
    rw [names']
  rw [unfold_F]
  refine ⟨⟨?_, ?_, fun r => ?_, ?_, fun k => ?_, ?_, rfl, ipv4_idle, rfl⟩, nameMap⟩
  · show (s.delNameList ++ (s.delNameList.foldl freeFqdnRecord S').nameMap).Perm h.nameMap
    rw [nameMap]
    exact perm
  · exact length.trans length'
  · show (s.delNameList.foldl freeFqdnRecord S').record r = _
    rw [record, record', walk.record]
    by_cases queued : r ∈ s.delNameList.map (·.r)
    · rw [if_pos queued, if_pos queued, if_pos queued]
    · rw [if_neg queued, if_neg queued, if_neg queued]
  · show (s.delNameList.foldl freeFqdnRecord S').bm.bits = h.bm.bits
    rw [bits, bm']
  · show (s.delNameList.foldl freeFqdnRecord S').bm.bit k = _
    rw [bit, bm']
    simp only [code']
  · show (s.delNameList.foldl freeFqdnRecord S').ipv4Map = _
    rw [ipv4Map]
    apply filterMap_cleanBy_congr
    intro e mem r member
    exact walk.deleted_eq inv (inv.assoc.rlist_live e mem r member)

theorem NameWalk.deleted_none (inv : FqdnInv h) (walk : NameWalk h s) (none : s.delNameList = [])
    (perm : (s.delNameList ++ m).Perm h.nameMap) :
    Deleted h { s with nameMap := m } s.delNameList := by
  have record : ∀ r, s.record r = h.record r := by
    intro r
    rw [walk.record, none]
    rfl
  refine ⟨perm, walk.length, fun r => ?_, by rw [walk.bm], fun k => ?_, ?_, none,
    walk.ipv4_idle.trans inv.shape.ipv4_idle, walk.rlist_idle.trans inv.shape.rlist_idle⟩
  · show s.record r = _
    rw [record, none]
    rfl
  · show s.bm.bit k = _
    rw [walk.bm, none, List.any_nil, Bool.not_false, Bool.and_true]
  · show s.ipv4Map = _
    rw [walk.ipv4Map, none,
      @filterMap_cleanBy_congr _ (fun _ => false) _ (fun _ _ _ _ => by simp),
      filterMap_cleanBy_none inv.assoc.rlist_ne]

end Round

theorem deleteMarkedRound_deleted {h : FqdnHdl} (inv : FqdnInv h) :
    ∃ Q, Deleted h (deleteMarkedRound h).1 Q ∧
      ((deleteMarkedRound h).2 = true → Q.length = dpiFqdnDeleteQlen) ∧
      ((deleteMarkedRound h).2 = false →
        ∀ e ∈ (deleteMarkedRound h).1.nameMap, h.marked e.r = false) := by
  obtain ⟨walk, perm, stopped, finished⟩ := nameWalk_result inv.shape.names_idle
  rw [deleteMarkedRound_eq]
  generalize MapWalk.walk checkFqdnNameEntry h.nameMap h = w at walk perm stopped finished
  obtain ⟨s, m, more⟩ := w
  dsimp only at walk perm stopped finished ⊢
  -- in both branches the map left is the walk's
  have unmarked : more = false → ∀ e ∈ m, h.marked e.r = false := by
    intro done e mem
    rw [finished done, List.mem_filter] at mem
    simpa using mem.2
  refine ⟨s.delNameList, ?_, stopped, ?_⟩
  · split
    · exact (walk.deleted_freed inv perm).1
    · next empty =>
      exact walk.deleted_none inv (List.eq_nil_of_length_eq_zero (Nat.eq_zero_of_not_pos empty))
        perm
  · intro done e mem
    split at mem
    · rw [(walk.deleted_freed inv perm).2] at mem
      exact unmarked done e mem
    · exact unmarked done e mem

theorem FqdnInv.deleteMarkedRound {h : FqdnHdl} (inv : FqdnInv h) :
    FqdnInv (deleteMarkedRound h).1 := by
  obtain ⟨Q, del, -, -⟩ := deleteMarkedRound_deleted inv
  exact inv.of_deleted del

theorem deleteMarkedRound_lowers {h : FqdnHdl} (inv : FqdnInv h)
    (more : (deleteMarkedRound h).2 = true) :
    (deleteMarkedRound h).1.nameMap.length < h.nameMap.length := by
  obtain ⟨Q, del, full, -⟩ := deleteMarkedRound_deleted inv
  have count := del.perm.length_eq
  rw [List.length_append, full more] at count
  unfold dpiFqdnDeleteQlen at count
  omega

/-- `dpi_fqdn_entry_delete_marked` ends through a round that asks for no other, within its fuel:
it keeps the invariant and leaves no live record marked for deletion. -/
theorem deleteMarked_finishes {h : FqdnHdl} (inv : FqdnInv h) :
    FqdnInv (dpiFqdnEntryDeleteMarked h) ∧
      ∀ r, (dpiFqdnEntryDeleteMarked h).Live r → (dpiFqdnEntryDeleteMarked h).marked r = false := by
  obtain ⟨last, inv_last, done, result⟩ := MapWalk.repeatWhile_finishes deleteMarkedRound FqdnInv
    (fun h => h.nameMap.length) (fun _ inv => inv.deleteMarkedRound)
    (fun _ inv more => deleteMarkedRound_lowers inv more) (h.nameMap.length + 1) h inv
    (Nat.lt_succ_self _)
  unfold dpiFqdnEntryDeleteMarked
  rw [result]
  obtain ⟨Q, del, -, left⟩ := deleteMarkedRound_deleted inv_last
  have inv' := inv_last.of_deleted del
  refine ⟨inv', fun r live => ?_⟩
  -- a live record is linked by an entry the last round left in the map, which was not marked
  obtain ⟨e, mem, rfl⟩ := List.mem_map.mp ((inv'.shape.linked r).mpr live)
  have unmarked := left done e mem
  unfold FqdnHdl.marked at unmarked ⊢
  rw [del.record_of_live live]
  exact unmarked

theorem FqdnInv.init : FqdnInv dpiFqdnHdlInit := by
  have dead : ∀ r, ¬dpiFqdnHdlInit.Live r := fun r live => Nat.not_lt_zero r live.1
  refine ⟨⟨rfl, rfl, rfl, rfl, fun r => ?_, List.nodup_nil, fun r live => absurd live (dead r)⟩,
    ⟨fun r live => absurd live (dead r), fun r _ live => absurd live (dead r), fun k => ?_⟩,
    ⟨List.nodup_nil, nofun, nofun, nofun, fun r live => absurd live (dead r),
      fun r live => absurd live (dead r), fun r _ live => absurd live (dead r)⟩⟩
  · exact ⟨nofun, fun live => absurd live (dead r)⟩
  · show (bitmapAllocate dpiFqdnMaxEntries).bit k = true ↔ _
    rw [bit_bitmapAllocate]
    exact ⟨Bool.noConfusion, fun ⟨r, live, _⟩ => absurd live (dead r)⟩

theorem FqdnInv.step {h : FqdnHdl} (inv : FqdnInv h) : ∀ ev, FqdnInv (fqdnStep h ev)
  | .config name ip vh => inv.config name ip vh
  | .snoop name ips => inv.snooped name ips
  | .markDelete name => inv.markDelete name
  | .deleteMarked => (deleteMarked_finishes inv).1

theorem fqdnRun_inv (events : List FqdnEvent) : FqdnInv (fqdnRun events) := by
  unfold fqdnRun
  -- the invariant is carried along the events from the initial handle
  suffices keeps : ∀ (evs : List FqdnEvent) (h : FqdnHdl), FqdnInv h →
      FqdnInv (evs.foldl fqdnStep h) from keeps events _ FqdnInv.init
  intro evs
  induction evs with
  | nil => exact fun _ inv => inv
  | cons ev evs ih => exact fun h inv => ih _ (inv.step ev)

theorem FqdnInv.allocFqdnCode_fails_iff {h : FqdnHdl} (inv : FqdnInv h) :
    (allocFqdnCode h).2 = UInt32.ofInt (-1) ↔
      ∀ k < dpiFqdnMaxEntries, ∃ r, h.Live r ∧ codeIndex (h.record r).code = k + 1 := by
  rcases allocFqdnCode_cases h inv.shape.bits with ⟨failed, full⟩ | ⟨k, below, clear, found, valid⟩
  · rw [failed]
    exact ⟨fun _ k below => (inv.codes.bitmap k).mp (full k below), fun _ => rfl⟩
  · rw [found]
    refine ⟨fun same => absurd same valid, fun held => ?_⟩
    -- the clear bit the search found stands for a code nobody holds
    have set := (inv.codes.bitmap k).mpr (held k below)
    rw [clear] at set
    exact Bool.noConfusion set

theorem fqdnRun_codes_unique (events : List FqdnEvent) :
    let h := fqdnRun events
    (∀ r, h.Live r →
      1 ≤ codeIndex (h.record r).code ∧ codeIndex (h.record r).code ≤ dpiFqdnMaxEntries) ∧
    (∀ r₁ r₂, h.Live r₁ → h.Live r₂ → (h.record r₁).code = (h.record r₂).code → r₁ = r₂) ∧
    (∀ k, h.bm.bit k = true ↔ ∃ r, h.Live r ∧ codeIndex (h.record r).code = k + 1) ∧
    ((allocFqdnCode h).2 = UInt32.ofInt (-1) ↔
      ∀ k < dpiFqdnMaxEntries, ∃ r, h.Live r ∧ codeIndex (h.record r).code = k + 1) ∧
    (∀ (b : Bitmap) (n : Int),
      bitmapGetNextZero b n =
        (match (b.firstClear (if n < 0 ∨ n ≥ b.bits then 0 else n.toNat) b.bits).or
            (b.firstClear 0 (if n < 0 ∨ n ≥ b.bits then 0 else n.toNat)) with
          | some k => (k : Int)
          | none => -1) ∧
      (bitmapGetNextZero b n = -1 ↔ ∀ k, k < b.bits → b.bit k = true)) := by
  intro h
  have inv := fqdnRun_inv events
  refine ⟨inv.codes.range, fun r₁ r₂ live₁ live₂ same => ?_, inv.codes.bitmap,
    inv.allocFqdnCode_fails_iff, fun b n => ⟨bitmapGetNextZero_eq b n,
      bitmapGetNextZero_eq_neg_one_iff b n⟩⟩
  exact inv.codes.inj r₁ r₂ live₁ live₂ (congrArg codeIndex same)

theorem fqdnRun_assoc_consistent (events : List FqdnEvent) :
    let h := fqdnRun events
    (∀ r ip, h.Live r → (ip ∈ (h.record r).iplist ↔ r ∈ h.rlistOf ip)) ∧
    (h.ipv4Map.map (·.ip)).Nodup ∧
    (∀ e ∈ h.ipv4Map, e.rlist.Nodup) ∧
    (∀ r, h.Live r → (h.record r).iplist.Nodup) ∧
    (∀ r, h.Live r → (h.record r).ipCnt = (h.record r).iplist.length) ∧
    (∀ e ∈ h.ipv4Map, ∀ r ∈ e.rlist, h.Live r) ∧
    (∀ e ∈ h.ipv4Map, e.rlist ≠ []) := by
  intro h
  have assoc := (fqdnRun_inv events).assoc
  exact ⟨assoc.both, assoc.ips_nodup, assoc.rlist_nodup, assoc.iplist_nodup, assoc.ip_cnt,
    assoc.rlist_live, assoc.rlist_ne⟩

end MicroSegment.Dpi
