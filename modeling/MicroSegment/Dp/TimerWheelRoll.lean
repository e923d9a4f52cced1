import MicroSegment.Dp.TimerWheelDue

/-!
# `timer_wheel_roll` fires the entries that are due

A roll to `now` drains the slots of the times from `current` on, below `now` and within a turn.
Each callback it calls works on the wheel through the calls of `TimerWheelDue`. If the callbacks
arm entries only before `current + MAX_TIMER_SLOTS`, the roll returns with enough fuel, and:
- it keeps the links;
- every entry it fires was active and due before `now` when the roll began, and fires once;
- every entry still active afterwards is due within a turn of `now`, none before
  (`timerWheelRoll_on_time`).

The proof follows the slots. At the time `s` the slot `s % MAX_TIMER_SLOTS` holds exactly the
active entries due at `s` (`mem_slot_iff`). Draining it fires them, and the callbacks arm
entries only from `now` on, after `s`, so they never refill it.
-/

namespace MicroSegment.Dp

variable {ε κ : Type}

theorem Linked.withCurrent {w : TimerWheel ε κ} (linked : Linked w) (now : Nat) :
    Linked { w with current := now } :=
  ⟨linked.outside, linked.nodup, linked.placed, linked.active, linked.count⟩

section slots

variable {w : TimerWheel ε κ} {due : ε → Nat} {s hi : Nat}

/-- Within a turn from `s`, the slot of the time `s` holds the active entries due at `s`. -/
theorem mem_slot_iff (linked : Linked w) (timely : Timely w due s hi)
    (near : hi ≤ s + maxTimerSlots) {x : ε} :
    x ∈ w.slots (s % maxTimerSlots) ↔ w.Active x ∧ due x = s := by
  rw [linked.mem_iff]
  constructor
  · rintro ⟨active, slot⟩
    obtain ⟨after, before, slot', -⟩ := timely x active
    rw [slot'] at slot
    simp only [maxTimerSlots] at slot near
    exact ⟨active, by omega⟩
  · rintro ⟨active, rfl⟩
    exact ⟨active, (timely x active).2.2.1⟩

theorem Linked.length_le_count (linked : Linked w) (i : Nat) : (w.slots i).length ≤ w.count := by
  by_cases inside : i < maxTimerSlots
  · rw [linked.count]
    exact Finset.single_le_sum (f := fun j => (w.slots j).length) (fun j _ => Nat.zero_le _)
      (Finset.mem_range.mpr inside)
  · simp [linked.outside i (Nat.le_of_not_lt inside)]

end slots

variable [DecidableEq ε]

/-- The callbacks of a roll to `now` make only the calls the code makes, arming entries before
`hi`. -/
def CallbacksAt (fire : κ → ε → TimerWheel ε κ → TimerWheel ε κ) (now hi : Nat) : Prop :=
  ∀ fn n w, Linked w → ¬ w.Active n →
    ∃ calls, fire fn n w = wheelCalls now w calls ∧ CallsOk now hi w calls

theorem active_timerWheelEntryRemove_iff {w : TimerWheel ε κ} {n x : ε} :
    (timerWheelEntryRemove w n).Active x ↔ x ≠ n ∧ w.Active x := by
  by_cases same : x = n
  · subst same
    simp [TimerWheel.Active, timerWheelEntryIsActive, entries_timerWheelEntryRemove]
  · simp [TimerWheel.Active, entries_timerWheelEntryRemove, same]

variable {fire : κ → ε → TimerWheel ε κ → TimerWheel ε κ} {now hi : Nat}

theorem drainSlot_fires (callbacks : CallbacksAt fire now hi) (noWrap : hi ≤ 2 ^ 32) {s : Nat}
    (early : s < now) (near : hi ≤ s + maxTimerSlots) :
    ∀ fuel {w : TimerWheel ε κ} {due : ε → Nat}, Linked w → Timely w due s hi →
      (w.slots (s % maxTimerSlots)).length < fuel →
      ∃ fired w' due', drainSlot fire (s % maxTimerSlots) fuel w = some (fired, w') ∧
        Linked w' ∧ Timely w' due' (s + 1) hi ∧
        (∀ x, w'.Active x → due' x < now → w.Active x ∧ due' x = due x) ∧
        fired.Nodup ∧ ∀ x ∈ fired, w.Active x ∧ due x = s
  | 0, _, _, _, _, short => absurd short (Nat.not_lt_zero _)
  | fuel + 1, w, due, linked, timely, short => by
    cases slot : w.slots (s % maxTimerSlots) with
    | nil =>
      -- an empty slot: nothing is due at `s`
      refine ⟨[], w, due, drainSlot_nil slot fuel, linked, fun x active => ?_,
        fun x active _ => ⟨active, rfl⟩, List.nodup_nil, by simp⟩
      obtain ⟨after, before, rest⟩ := timely x active
      have notNow : due x ≠ s := fun atS => by
        have := (mem_slot_iff linked timely near).mpr ⟨active, atS⟩
        rw [slot] at this
        exact List.not_mem_nil this
      exact ⟨by omega, before, rest⟩
    | cons itr rest =>
      have first : w.Active itr ∧ due itr = s :=
        (mem_slot_iff linked timely near).mp (slot ▸ List.mem_cons_self)
      obtain ⟨fn, callback⟩ := Option.isSome_iff_exists.mp first.1
      -- unlink `itr`, then run its callback
      have linked₁ : Linked (timerWheelEntryRemove w itr) := (linked.remove first.1).1
      have timely₁ : Timely (timerWheelEntryRemove w itr) due s hi :=
        show Timely (wheelCall now w (.remove itr)) (dueAfter now w due (.remove itr)) s hi from
          timely.call first.1 early.le noWrap
      have off : ¬ (timerWheelEntryRemove w itr).Active itr := by
        simp [active_timerWheelEntryRemove_iff]
      obtain ⟨calls, fired₁, ok⟩ := callbacks fn itr _ linked₁ off
      obtain ⟨linked₂, timely₂, overdue₂⟩ := calls_keep early.le noWrap calls linked₁ timely₁ ok
      -- the callbacks arm from `now` on, so the slot only loses entries
      have shrunk :
          ((wheelCalls now (timerWheelEntryRemove w itr) calls).slots (s % maxTimerSlots)).length <
            fuel := by
        have within : (wheelCalls now (timerWheelEntryRemove w itr) calls).slots (s % maxTimerSlots)
            ⊆ (w.slots (s % maxTimerSlots)).erase itr := by
          intro x mem
          obtain ⟨active, atS⟩ := (mem_slot_iff linked₂ timely₂ near).mp mem
          obtain ⟨was, same⟩ := overdue₂ x active (by omega)
          obtain ⟨other, active₀⟩ := active_timerWheelEntryRemove_iff.mp was
          rw [(linked.nodup _).mem_erase_iff]
          exact ⟨other, (mem_slot_iff linked timely near).mpr ⟨active₀, same ▸ atS⟩⟩
        have le := ((linked₂.nodup _).subperm within).length_le
        rw [List.length_erase_of_mem (slot ▸ List.mem_cons_self), slot] at le
        simp only [slot, List.length_cons] at short
        simp only [List.length_cons, Nat.add_sub_cancel] at le
        omega
      obtain ⟨fired, w', due', drained, linked', timely', overdue', nodup', was'⟩ :=
        drainSlot_fires callbacks noWrap early near fuel linked₂ timely₂ shrunk
      refine ⟨itr :: fired, w', due', ?_, linked', timely', fun x active overdue => ?_,
        List.nodup_cons.mpr ⟨fun again => ?_, nodup'⟩, fun x mem => ?_⟩
      · simp only [drainSlot, slot, callback]
        rw [fired₁, drained]
        rfl
      · obtain ⟨active₂, same₂⟩ := overdue' x active overdue
        obtain ⟨active₁, same₁⟩ := overdue₂ x active₂ (same₂ ▸ overdue)
        exact ⟨(active_timerWheelEntryRemove_iff.mp active₁).2, same₂.trans same₁⟩
      · -- `itr` was unlinked, and nothing armed it again before `now`
        obtain ⟨active₂, atS⟩ := was' itr again
        exact off (overdue₂ itr active₂ (by omega)).1
      · rcases List.mem_cons.mp mem with rfl | later
        · exact first
        · obtain ⟨active₂, atS⟩ := was' x later
          obtain ⟨active₁, same₁⟩ := overdue₂ x active₂ (by omega)
          exact ⟨(active_timerWheelEntryRemove_iff.mp active₁).2, same₁ ▸ atS⟩

theorem rollSlots_fires (callbacks : CallbacksAt fire now hi) (noWrap : hi ≤ 2 ^ 32)
    {w₀ : TimerWheel ε κ} {due₀ : ε → Nat} {lo₀ : Nat} (linked₀ : Linked w₀)
    (timely₀ : Timely w₀ due₀ lo₀ hi) {fuel : Nat} (enough : w₀.count < fuel) :
    ∀ steps {s : Nat} {w : TimerWheel ε κ} {due : ε → Nat}, s + steps ≤ now →
      hi ≤ s + maxTimerSlots → s + steps ≤ hi → Linked w → Timely w due s hi →
      (∀ x, w.Active x → due x < now → w₀.Active x ∧ due x = due₀ x) →
      ∃ fired w' due', rollSlots fire fuel steps s w = some (fired, w') ∧
        Linked w' ∧ Timely w' due' (s + steps) hi ∧
        (∀ x, w'.Active x → due' x < now → w₀.Active x ∧ due' x = due₀ x) ∧
        fired.Nodup ∧ ∀ x ∈ fired, w₀.Active x ∧ s ≤ due₀ x ∧ due₀ x < s + steps
  | 0, _, w, due, _, _, _, linked, timely, original =>
    ⟨[], w, due, rfl, linked, timely, original, List.nodup_nil, by simp⟩
  | steps + 1, s, w, due, before, near, inside, linked, timely, original => by
    have early : s < now := by omega
    -- the slot holds entries that were there when the roll began
    have short : (w.slots (s % maxTimerSlots)).length < fuel := by
      have within : w.slots (s % maxTimerSlots) ⊆ w₀.slots (s % maxTimerSlots) := by
        intro x mem
        obtain ⟨active, atS⟩ := (mem_slot_iff linked timely near).mp mem
        obtain ⟨active₀, same⟩ := original x active (by omega)
        exact linked₀.mem_iff.mpr ⟨active₀, by rw [(timely₀ x active₀).2.2.1, ← same, atS]⟩
      have le := ((linked.nodup _).subperm within).length_le
      have bound := linked₀.length_le_count (s % maxTimerSlots)
      omega
    obtain ⟨first, w₁, due₁, drained, linked₁, timely₁, overdue₁, nodup₁, fired₁⟩ :=
      drainSlot_fires callbacks noWrap early near fuel linked timely short
    have original₁ : ∀ x, w₁.Active x → due₁ x < now → w₀.Active x ∧ due₁ x = due₀ x := by
      intro x active overdue
      obtain ⟨active', same⟩ := overdue₁ x active overdue
      obtain ⟨active₀, same₀⟩ := original x active' (same ▸ overdue)
      exact ⟨active₀, same.trans same₀⟩
    obtain ⟨rest, w', due', rolled, linked', timely', original', nodup', fired'⟩ :=
      rollSlots_fires callbacks noWrap linked₀ timely₀ enough steps (s := s + 1) (by omega)
        (by omega) (by omega) linked₁ timely₁ original₁
    -- the first slot's entries are due at `s`, the later ones after it
    have firstAt : ∀ x ∈ first, w₀.Active x ∧ due₀ x = s := by
      intro x mem
      obtain ⟨active, atS⟩ := fired₁ x mem
      obtain ⟨active₀, same⟩ := original x active (by omega)
      exact ⟨active₀, same ▸ atS⟩
    refine ⟨first ++ rest, w', due', ?_, linked', ?_, original', ?_, fun x mem => ?_⟩
    · rw [rollSlots_of_drain drained, rolled]
      rfl
    · rw [show s + (steps + 1) = s + 1 + steps by omega]
      exact timely'
    · refine List.nodup_append.mpr ⟨nodup₁, nodup', fun a inFirst b inRest same => ?_⟩
      subst same
      have atS := (firstAt a inFirst).2
      have after := (fired' a inRest).2.1
      omega
    · rcases List.mem_append.mp mem with inFirst | inRest
      · obtain ⟨active₀, atS⟩ := firstAt x inFirst
        exact ⟨active₀, by omega, by omega⟩
      · obtain ⟨active₀, after, below⟩ := fired' x inRest
        exact ⟨active₀, by omega, by omega⟩

/-- `timer_wheel_roll` to a `now` at or after `current`, on a wheel whose active entries are due
within a turn of `current`, with callbacks that arm entries before `current + MAX_TIMER_SLOTS`:
it returns the number of entries it fired, keeps the links, and moves `current` to `now`. Each
entry it fires was active and due before `now` when the roll began, and fires once. Every entry
active afterwards is due within a turn of `now`, none before it. -/
theorem timerWheelRoll_on_time {w : TimerWheel ε κ} {due : ε → Nat} {fuel : Nat}
    (callbacks : CallbacksAt fire now (w.current + maxTimerSlots)) (linked : Linked w)
    (timely : Timely w due w.current (w.current + maxTimerSlots)) (later : w.current ≤ now)
    (noWrap : w.current + maxTimerSlots < 2 ^ 32) (enough : w.count < fuel) :
    ∃ fired w' due', timerWheelRoll fire fuel w now = some (fired.length, fired, w') ∧
      Linked w' ∧ w'.current = now ∧ Timely w' due' now (now + maxTimerSlots) ∧
      fired.Nodup ∧ ∀ n ∈ fired, w.Active n ∧ due n < now := by
  obtain ⟨fired, w₁, due₁, rolled, linked₁, timely₁, -, nodup, fired₁⟩ :=
    rollSlots_fires callbacks noWrap.le linked timely enough
      (min now (w.current + maxTimerSlots) - w.current) (s := w.current) (by omega) (by omega)
      (by omega) linked timely fun x active _ => ⟨active, rfl⟩
  refine ⟨fired, { w₁ with current := now }, due₁, ?_, linked₁.withCurrent now, rfl,
    fun x active => ?_, nodup, fun x mem => ?_⟩
  · rw [timerWheelRoll_eq fuel later, Nat.mod_eq_of_lt noWrap, rolled]
    rfl
  · -- nothing is due before the last time drained, which is `now` unless the roll skipped a
    -- whole turn, and then nothing is active at all
    obtain ⟨after, before, rest⟩ := timely₁ x active
    exact ⟨by omega, by omega, rest⟩
  · obtain ⟨active, after, below⟩ := fired₁ x mem
    exact ⟨active, by omega⟩

/-! ### A callback that links its entry back into the slot being drained -/

/-- A slot whose entries all have a callback that starts its entry again at `now` into that
same slot: the `while` loop of `timer_wheel_roll` never empties it, whatever the fuel. -/
theorem drainSlot_loops {fn : κ} {timeout i : Nat}
    (rearm : ∀ x w, fire fn x w = timerWheelEntryStart w x (some fn) timeout now)
    (same : (now + clampTimeout timeout) % 2 ^ 32 % maxTimerSlots = i) :
    ∀ fuel (w : TimerWheel ε κ), w.slots i ≠ [] →
      (∀ x ∈ w.slots i, (w.entries x).callback = some fn) → drainSlot fire i fuel w = none
  | 0, _, _, _ => rfl
  | fuel + 1, w, nonempty, armed => by
    obtain ⟨itr, rest, slot⟩ := List.exists_cons_of_ne_nil nonempty
    have callback := armed itr (slot ▸ List.mem_cons_self)
    set w' := timerWheelEntryStart (timerWheelEntryRemove w itr) itr (some fn) timeout now
    -- the callback puts `itr` back at the tail of the slot
    have back : w'.slots i = (w.slots i).erase itr ++ [itr] := by
      simp only [w', slots_timerWheelEntryStart, same, Function.update_self,
        slots_timerWheelEntryRemove]
    have stillArmed : ∀ x ∈ w'.slots i, (w'.entries x).callback = some fn := by
      intro x mem
      by_cases atItr : x = itr
      · subst atItr
        simp [w']
      · rw [back] at mem
        have old : x ∈ w.slots i := by simpa [atItr] using mem
        simp only [w', timerWheelEntryStart, entries_timerWheelEntryInsert, entries_setEntry,
          entries_timerWheelEntryRemove, Function.update_of_ne atItr]
        exact armed x old
    have looped := drainSlot_loops rearm same fuel w' (by simp [back]) stillArmed
    simp only [drainSlot, slot, callback, rearm]
    rw [looped]
    rfl

/-- Entry `0`, started at `0` with timeout `1`, has a callback that starts it again at `10` with
timeout `3595`, which is the slot `5`: the roll to `10` fires it in the slot `1`, then never
empties the slot `5`. -/
theorem timerWheelRoll_rearm_loops :
    timerWheelRoll (fun (_ : Unit) (x : Nat) w => timerWheelEntryStart w x (some ()) 3595 10) 100
      (timerWheelEntryStart (timerWheelInit ⟨fun _ => [], 0, 0, fun _ => ⟨none, 65535, 0⟩⟩) 0
        (some ()) 1 0) 10 = none := by
  set fire : Unit → Nat → TimerWheel Nat Unit → TimerWheel Nat Unit :=
    fun _ x w => timerWheelEntryStart w x (some ()) 3595 10 with fireDef
  set w₀ := timerWheelEntryStart (timerWheelInit (⟨fun _ => [], 0, 0, fun _ => ⟨none, 65535, 0⟩⟩ :
    TimerWheel Nat Unit)) 0 (some ()) 1 0 with w₀Def
  set w₁ := fire () 0 (timerWheelEntryRemove w₀ 0) with w₁Def
  have at₀ : (0 + clampTimeout 1) % 2 ^ 32 % maxTimerSlots = 1 := by decide
  have at₁ : (10 + clampTimeout 3595) % 2 ^ 32 % maxTimerSlots = 5 := by decide
  have slots₀ : ∀ i, w₀.slots i = if i = 1 then [0] else [] := by
    intro i
    rw [w₀Def, slots_timerWheelEntryStart, at₀]
    by_cases h1 : i = 1 <;> simp [h1, timerWheelInit]
  -- the callback moves entry `0` from the slot `1` to the slot `5`
  have slots₁ : ∀ i, w₁.slots i = if i = 5 then [0] else [] := by
    intro i
    rw [w₁Def, fireDef]
    dsimp only
    rw [slots_timerWheelEntryStart, at₁]
    by_cases h5 : i = 5 <;> by_cases h1 : i = 1 <;> simp [h5, h1, slots₀]
  have d0 : drainSlot fire 0 100 w₀ = some ([], w₀) := drainSlot_nil (by rw [slots₀]; rfl) 99
  have d1 : drainSlot fire 1 100 w₀ = some ([0], w₁) := by
    have armed : (w₀.entries 0).callback = some () := by simp [w₀Def]
    rw [drainSlot, slots₀, if_pos rfl]
    simp only [armed]
    rw [← w₁Def, drainSlot_nil (by rw [slots₁]; rfl) 98]
    rfl
  have empty : ∀ i, i ≠ 5 → drainSlot fire i 100 w₁ = some ([], w₁) := fun i other =>
    drainSlot_nil (by rw [slots₁, if_neg other]) 99
  have d5 : drainSlot fire 5 100 w₁ = none := by
    refine drainSlot_loops (fun _ _ => rfl) at₁ 100 w₁ (by rw [slots₁]; simp) ?_
    intro x mem
    rw [slots₁, if_pos rfl, List.mem_singleton] at mem
    subst mem
    simp [w₁Def, fireDef]
  have start : w₀.current = 0 := rfl
  rw [timerWheelRoll_eq 100 (start ▸ Nat.zero_le 10), start,
    show min 10 ((0 + maxTimerSlots) % 2 ^ 32) - 0 = 10 by decide,
    rollSlots_of_drain d0, rollSlots_of_drain d1, rollSlots_of_drain (empty 2 (by decide)),
    rollSlots_of_drain (empty 3 (by decide)), rollSlots_of_drain (empty 4 (by decide)),
    rollSlots_of_drain_none d5]
  rfl

end MicroSegment.Dp
