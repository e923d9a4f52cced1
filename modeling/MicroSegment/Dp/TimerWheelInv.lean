import MicroSegment.Dp.TimerWheel

/-!
# The links of the timer wheel

`Linked` is the wheel's representation. Each entry sits at most once in the slot its record
names. An entry is linked exactly when it is active, that is when it has a callback. `count`
counts the linked entries.

Starting an inactive entry with a callback keeps `Linked`. So do refreshing or removing an active
one, setting an active entry's callback to another, and setting any entry's timeout.
-/

namespace MicroSegment.Dp

variable {ε κ : Type}

/-- The entry has a callback: `timer_wheel_entry_is_active`. -/
def TimerWheel.Active (w : TimerWheel ε κ) (n : ε) : Prop :=
  timerWheelEntryIsActive (w.entries n) = true

/-- The slots hold each active entry once, in the slot its record names, and nothing else, and
`count` is the number of entries they hold. -/
structure Linked (w : TimerWheel ε κ) : Prop where
  outside : ∀ i, maxTimerSlots ≤ i → w.slots i = []
  nodup : ∀ i, (w.slots i).Nodup
  placed : ∀ i n, n ∈ w.slots i → (w.entries n).expireSlot = i
  active : ∀ n, w.Active n ↔ n ∈ w.slots (w.entries n).expireSlot
  count : w.count = ∑ i ∈ Finset.range maxTimerSlots, (w.slots i).length

theorem Linked.mem_iff {w : TimerWheel ε κ} (linked : Linked w) {n : ε} {i : Nat} :
    n ∈ w.slots i ↔ w.Active n ∧ (w.entries n).expireSlot = i := by
  constructor
  · intro mem
    have slot := linked.placed i n mem
    exact ⟨(linked.active n).mpr (slot ▸ mem), slot⟩
  · rintro ⟨active, rfl⟩
    exact (linked.active n).mp active

theorem Linked.not_mem {w : TimerWheel ε κ} (linked : Linked w) {n : ε} (inactive : ¬ w.Active n)
    (i : Nat) : n ∉ w.slots i :=
  fun mem => inactive (linked.mem_iff.mp mem).1

theorem Linked.lt_of_mem {w : TimerWheel ε κ} (linked : Linked w) {n : ε} {i : Nat}
    (mem : n ∈ w.slots i) : i < maxTimerSlots := by
  by_contra beyond
  rw [linked.outside i (Nat.le_of_not_lt beyond)] at mem
  exact List.not_mem_nil mem

theorem linked_timerWheelInit {w : TimerWheel ε κ} (inactive : ∀ n, ¬ w.Active n) :
    Linked (timerWheelInit w) := by
  refine ⟨fun _ _ => rfl, fun _ => List.nodup_nil, fun _ _ mem => absurd mem List.not_mem_nil,
    fun n => ?_, by simp [timerWheelInit]⟩
  simpa [timerWheelInit, TimerWheel.Active] using inactive n

theorem sum_length_update {f : Nat → List ε} {s : Nat} (lt : s < maxTimerSlots) (l : List ε) :
    ∑ i ∈ Finset.range maxTimerSlots, (Function.update f s l i).length + (f s).length =
      ∑ i ∈ Finset.range maxTimerSlots, (f i).length + l.length := by
  have mem := Finset.mem_range.mpr lt
  rw [← Finset.add_sum_erase _ _ mem, ← Finset.add_sum_erase _ _ mem]
  have rest : ∑ i ∈ (Finset.range maxTimerSlots).erase s, (Function.update f s l i).length =
      ∑ i ∈ (Finset.range maxTimerSlots).erase s, (f i).length :=
    Finset.sum_congr rfl fun i other => by rw [Function.update_of_ne (Finset.ne_of_mem_erase other)]
  rw [rest, Function.update_self]
  omega

section ops

variable [DecidableEq ε] {w : TimerWheel ε κ} {n : ε}

theorem Linked.setEntry_of_inactive (linked : Linked w) (out : ∀ i, n ∉ w.slots i)
    {e : TimerEntry κ} (none : e.callback = none) : Linked (w.setEntry n e) where
  outside := linked.outside
  nodup := linked.nodup
  placed i m mem := by
    have other : m ≠ n := fun same => out i (same ▸ mem)
    simpa [Function.update_of_ne other] using linked.placed i m mem
  active m := by
    by_cases same : m = n
    · subst same
      simp [TimerWheel.Active, timerWheelEntryIsActive, none, out]
    · simpa [TimerWheel.Active, Function.update_of_ne same] using linked.active m
  count := linked.count

theorem Linked.setEntry_same (linked : Linked w) {e : TimerEntry κ}
    (slot : e.expireSlot = (w.entries n).expireSlot)
    (same : e.callback.isSome = (w.entries n).callback.isSome) : Linked (w.setEntry n e) where
  outside := linked.outside
  nodup := linked.nodup
  placed i m mem := by
    by_cases atN : m = n
    · subst atN
      simpa [slot] using linked.placed i m mem
    · simpa [Function.update_of_ne atN] using linked.placed i m mem
  active m := by
    by_cases atN : m = n
    · subst atN
      simpa [TimerWheel.Active, timerWheelEntryIsActive, slot, same] using linked.active m
    · simpa [TimerWheel.Active, Function.update_of_ne atN] using linked.active m
  count := linked.count

theorem mem_slots_timerWheelEntryInsert {now : Nat} {m : ε} {i : Nat} :
    m ∈ (timerWheelEntryInsert w n now).slots i ↔
      m ∈ w.slots i ∨ (m = n ∧ i = (now + (w.entries n).timeout) % 2 ^ 32 % maxTimerSlots) := by
  rw [slots_timerWheelEntryInsert]
  by_cases atSlot : i = (now + (w.entries n).timeout) % 2 ^ 32 % maxTimerSlots
  · subst atSlot
    simp [or_comm]
  · rw [Function.update_of_ne atSlot]
    exact ⟨Or.inl, fun mem => mem.elim id fun ⟨_, same⟩ => absurd same atSlot⟩

theorem Linked.insert (now : Nat) (linked : Linked (w.setEntry n { w.entries n with callback := none }))
    (armed : (w.entries n).callback.isSome) : Linked (timerWheelEntryInsert w n now) := by
  set slot := (now + (w.entries n).timeout) % 2 ^ 32 % maxTimerSlots with slotDef
  have inactive : ¬ (w.setEntry n { w.entries n with callback := none }).Active n := by
    simp [TimerWheel.Active, timerWheelEntryIsActive]
  have out : ∀ i, n ∉ w.slots i := linked.not_mem inactive
  have below : slot < maxTimerSlots := Nat.mod_lt _ (by decide)
  have record : ∀ m, m ≠ n → (w.entries m) =
      (w.setEntry n { w.entries n with callback := none }).entries m := fun m other => by
    simp [Function.update_of_ne other]
  refine ⟨fun i beyond => ?_, fun i => ?_, fun i m mem => ?_, fun m => ?_, ?_⟩
  · -- outside the wheel nothing changes
    have other : i ≠ slot := by omega
    rw [slots_timerWheelEntryInsert, Function.update_of_ne other]
    exact linked.outside i beyond
  · by_cases atSlot : i = slot
    · subst atSlot
      rw [slots_timerWheelEntryInsert, Function.update_self, List.nodup_append]
      refine ⟨linked.nodup _, List.nodup_singleton n, fun a inSlot b isN => ?_⟩
      rw [List.mem_singleton] at isN
      subst isN
      exact fun same => out _ (same ▸ inSlot)
    · rw [slots_timerWheelEntryInsert, Function.update_of_ne atSlot]
      exact linked.nodup i
  · rw [mem_slots_timerWheelEntryInsert] at mem
    rw [entries_timerWheelEntryInsert]
    rcases mem with old | ⟨rfl, rfl⟩
    · have other : m ≠ n := fun same => out i (same ▸ old)
      rw [Function.update_of_ne other, record m other]
      exact linked.placed i m old
    · simp
  · by_cases atN : m = n
    · subst atN
      simp [TimerWheel.Active, timerWheelEntryIsActive, armed, entries_timerWheelEntryInsert,
        mem_slots_timerWheelEntryInsert]
    · have was := linked.active m
      simp only [TimerWheel.Active, entries_timerWheelEntryInsert, Function.update_of_ne atN,
        mem_slots_timerWheelEntryInsert, atN, false_and, or_false] at was ⊢
      rw [record m atN]
      exact was
  · have counted : w.count = ∑ i ∈ Finset.range maxTimerSlots, (w.slots i).length := linked.count
    rw [count_timerWheelEntryInsert, counted, slots_timerWheelEntryInsert, ← slotDef]
    have sum := sum_length_update below (w.slots slot ++ [n]) (f := w.slots)
    simp only [List.length_append, List.length_singleton] at sum
    omega

theorem Linked.remove (linked : Linked w) (active : w.Active n) :
    Linked (timerWheelEntryRemove w n) ∧ ∀ i, n ∉ (timerWheelEntryRemove w n).slots i := by
  set e := (w.entries n).expireSlot
  have inSlot : n ∈ w.slots e := (linked.active n).mp active
  have below : e < maxTimerSlots := linked.lt_of_mem inSlot
  have gone : ∀ i, n ∉ (timerWheelEntryRemove w n).slots i := fun i => by
    rw [slots_timerWheelEntryRemove]
    exact (linked.nodup i).not_mem_erase
  have memIff : ∀ m i, m ∈ (timerWheelEntryRemove w n).slots i ↔ m ≠ n ∧ m ∈ w.slots i :=
    fun m i => by rw [slots_timerWheelEntryRemove, (linked.nodup i).mem_erase_iff]
  refine ⟨⟨fun i beyond => ?_, fun i => ?_, fun i m mem => ?_, fun m => ?_, ?_⟩, gone⟩
  · simp [linked.outside i beyond]
  · exact (linked.nodup i).erase n
  · obtain ⟨other, old⟩ := (memIff m i).mp mem
    rw [entries_timerWheelEntryRemove, Function.update_of_ne other]
    exact linked.placed i m old
  · by_cases atN : m = n
    · subst atN
      have off : ¬ (timerWheelEntryRemove w m).Active m := by
        simp [TimerWheel.Active, timerWheelEntryIsActive, entries_timerWheelEntryRemove]
      exact iff_of_false off (gone _)
    · rw [memIff]
      simp only [TimerWheel.Active, entries_timerWheelEntryRemove, Function.update_of_ne atN]
      exact (linked.active m).trans ⟨fun old => ⟨atN, old⟩, And.right⟩
  · -- only the entry's own slot loses it
    have erased : (timerWheelEntryRemove w n).slots =
        Function.update w.slots e ((w.slots e).erase n) := by
      funext i
      by_cases atSlot : i = e
      · subst atSlot
        simp
      · rw [Function.update_of_ne atSlot, slots_timerWheelEntryRemove,
          List.erase_of_not_mem fun inI => atSlot ((linked.placed i n inI).symm)]
    have sum := sum_length_update below ((w.slots e).erase n) (f := w.slots)
    have shorter := List.length_erase_of_mem inSlot
    have nonempty := List.length_pos_of_mem inSlot
    rw [count_timerWheelEntryRemove, linked.count, erased]
    omega

theorem Linked.start (linked : Linked w) (inactive : ¬ w.Active n) {cb : Option κ}
    (armed : cb.isSome) (timeout now : Nat) : Linked (timerWheelEntryStart w n cb timeout now) := by
  apply Linked.insert now
  · rw [setEntry_setEntry]
    simp only [entries_setEntry, Function.update_self]
    exact linked.setEntry_of_inactive (linked.not_mem inactive) rfl
  · simpa using armed

theorem Linked.refresh (linked : Linked w) (active : w.Active n) (now : Nat) :
    Linked (timerWheelEntryRefresh w n now) := by
  obtain ⟨removed, -⟩ := linked.remove active
  apply Linked.insert now
  · rw [setEntry_setEntry]
    simp only [entries_setEntry, Function.update_self]
    have cleared : { (timerWheelEntryRemove w n).entries n with callback := none } =
        (timerWheelEntryRemove w n).entries n := by
      simp [entries_timerWheelEntryRemove]
    rw [cleared, setEntry_self]
    exact removed
  · simpa [TimerWheel.Active, timerWheelEntryIsActive] using active

theorem Linked.setCallback (linked : Linked w) (active : w.Active n) {cb : Option κ}
    (armed : cb.isSome) : Linked (timerWheelEntrySetCallback w n cb) :=
  linked.setEntry_same rfl (by rw [armed]; exact active.symm)

theorem Linked.setTimeout (linked : Linked w) (timeout : Nat) :
    Linked (timerWheelEntrySetTimeout w n timeout) := by
  unfold timerWheelEntrySetTimeout
  split
  · exact linked
  · exact linked.setEntry_same rfl rfl

end ops

end MicroSegment.Dp
