import MicroSegment.Dp.TimerWheelRoll

/-!
# Runs of the dataplane's timer wheel

`dpi_timeout` rolls the wheel to the thread's tick, and between two rolls the code starts,
refreshes and removes entries at that same tick, `th_snap.tick`, which is then the wheel's
`current`. The callbacks read the tick too, so the callbacks of a roll to `now` are `fire now`.

`WheelReachable` is every wheel that `timer_wheel_init` and such calls and rolls reach. In each
of them the links hold, and every active entry is due within a turn of `current`, at the time
`get_expire_at` reads from `current` (`WheelReachable.good`). When a roll's callbacks work only
on their own entry, the roll fires exactly the active entries due before `now`, each once, and
leaves the record of every other entry as it was, due at the same time
(`wheelReachable_roll_fires_due`).

The exact count rests on a frame: a callback that works only on its own entry changes no other
record, and under `Linked` the records decide the slots (`Linked.mem_congr`).
-/

namespace MicroSegment.Dp

variable {ε κ : Type}

/-- Two linked wheels that agree on an entry's record hold it in the same slots. -/
theorem Linked.mem_congr {w w' : TimerWheel ε κ} (linked : Linked w) (linked' : Linked w') {x : ε}
    (same : w'.entries x = w.entries x) (i : Nat) : x ∈ w'.slots i ↔ x ∈ w.slots i := by
  rw [linked'.mem_iff, linked.mem_iff, TimerWheel.Active, TimerWheel.Active, same]

theorem Linked.slot_unique {w : TimerWheel ε κ} (linked : Linked w) {x : ε} {i j : Nat}
    (memI : x ∈ w.slots i) (memJ : x ∈ w.slots j) : i = j :=
  (linked.placed i x memI).symm.trans (linked.placed j x memJ)

/-- The active entries' due times, as `get_expire_at` reads them from `current`. -/
def expireAt (w : TimerWheel ε κ) (n : ε) : Nat := getExpireAt (w.entries n) w.current

/-- A wheel the roll can work on: linked, every active entry due within a turn of `current` at
the time `get_expire_at` reads, and a turn after `current` still below `2 ^ 32`. -/
structure WheelGood (w : TimerWheel ε κ) : Prop where
  linked : Linked w
  timely : Timely w (expireAt w) w.current (w.current + maxTimerSlots)
  noWrap : w.current + maxTimerSlots < 2 ^ 32

theorem Timely.expireAt_eq {w : TimerWheel ε κ} {due : ε → Nat} {hi : Nat}
    (timely : Timely w due w.current hi) (near : hi ≤ w.current + maxTimerSlots)
    (noWrap : hi ≤ 2 ^ 32) {n : ε} (active : w.Active n) : expireAt w n = due n := by
  obtain ⟨after, before, slot, -⟩ := timely n active
  exact getExpireAt_eq active slot after (by omega) (by omega)

theorem Timely.of_expireAt {w : TimerWheel ε κ} {due : ε → Nat} {hi : Nat}
    (timely : Timely w due w.current hi) (near : hi ≤ w.current + maxTimerSlots)
    (noWrap : hi ≤ 2 ^ 32) : Timely w (expireAt w) w.current hi := by
  intro n active
  rw [timely.expireAt_eq near noWrap active]
  exact timely n active

theorem wheelGood_of_inactive {w : TimerWheel ε κ} (linked : Linked w)
    (inactive : ∀ n, ¬ w.Active n) (noWrap : w.current + maxTimerSlots < 2 ^ 32) : WheelGood w :=
  ⟨linked, fun n active => absurd active (inactive n), noWrap⟩

theorem wheelGood_timerWheelInit {w : TimerWheel ε κ} (inactive : ∀ n, ¬ w.Active n) :
    WheelGood (timerWheelInit w) :=
  wheelGood_of_inactive (linked_timerWheelInit inactive) inactive
    (show 0 + maxTimerSlots < 2 ^ 32 by decide)

section steps

variable [DecidableEq ε]

/-- Callbacks of a roll to `now` that make only the calls the code makes, arming before `hi`,
and only on the entry that fired. -/
def OwnCallbacksAt (fire : κ → ε → TimerWheel ε κ → TimerWheel ε κ) (now hi : Nat) : Prop :=
  ∀ fn n w, Linked w → ¬ w.Active n →
    ∃ calls, fire fn n w = wheelCalls now w calls ∧ CallsOk now hi w calls ∧
      ∀ call ∈ calls, call.entry = n

theorem OwnCallbacksAt.callbacksAt {fire : κ → ε → TimerWheel ε κ → TimerWheel ε κ} {now hi : Nat}
    (own : OwnCallbacksAt fire now hi) : CallbacksAt fire now hi := fun fn n w linked off => by
  obtain ⟨calls, fired, ok, -⟩ := own fn n w linked off
  exact ⟨calls, fired, ok⟩

variable {fire : κ → ε → TimerWheel ε κ → TimerWheel ε κ} {now hi : Nat}

theorem drainSlot_frame (own : OwnCallbacksAt fire now hi) {i : Nat} :
    ∀ fuel {w : TimerWheel ε κ} {fired : List ε} {w' : TimerWheel ε κ}, Linked w →
      drainSlot fire i fuel w = some (fired, w') →
      Linked w' ∧ (∀ x, x ∈ fired ↔ x ∈ w.slots i) ∧
        ∀ x, x ∉ w.slots i → w'.entries x = w.entries x
  | 0, _, _, _, _, drained => by simp [drainSlot] at drained
  | fuel + 1, w, fired, w', linked, drained => by
    cases slot : w.slots i with
    | nil =>
      rw [drainSlot_nil slot, Option.some.injEq, Prod.mk.injEq] at drained
      obtain ⟨rfl, rfl⟩ := drained
      exact ⟨linked, by simp, fun _ _ => rfl⟩
    | cons itr rest =>
      cases callback : (w.entries itr).callback with
      | none => simp [drainSlot, slot, callback] at drained
      | some fn =>
        have active : w.Active itr := by
          simp [TimerWheel.Active, timerWheelEntryIsActive, callback]
        have off : ¬ (timerWheelEntryRemove w itr).Active itr := by
          simp [active_timerWheelEntryRemove_iff]
        obtain ⟨calls, called, ok, onItr⟩ := own fn itr _ (linked.remove active).1 off
        have linked₁ : Linked (fire fn itr (timerWheelEntryRemove w itr)) :=
          called ▸ (linked.remove active).1.calls calls ok
        -- the callback changes no other record, so no other entry changes its slot
        have record : ∀ x, x ≠ itr →
            (fire fn itr (timerWheelEntryRemove w itr)).entries x = w.entries x := by
          intro x other
          rw [called, entries_wheelCalls_of_ne other calls _ onItr, entries_timerWheelEntryRemove,
            Function.update_of_ne other]
        have stays : ∀ x, x ≠ itr →
            (x ∈ (fire fn itr (timerWheelEntryRemove w itr)).slots i ↔ x ∈ w.slots i) :=
          fun x other => linked.mem_congr linked₁ (record x other) i
        simp only [drainSlot, slot, callback] at drained
        obtain ⟨⟨fired₁, w₁⟩, drained₁, result⟩ := Option.map_eq_some_iff.mp drained
        simp only [Prod.mk.injEq] at result
        obtain ⟨rfl, rfl⟩ := result
        obtain ⟨linked', members, frame⟩ := drainSlot_frame own fuel linked₁ drained₁
        refine ⟨linked', fun x => ?_, fun x outside => ?_⟩
        · by_cases atItr : x = itr
          · subst atItr
            simp
          · rw [List.mem_cons, members, stays x atItr, slot]
            simp [atItr]
        · have other : x ≠ itr := fun atItr => outside (atItr ▸ List.mem_cons_self)
          rw [frame x fun mem => outside (slot ▸ (stays x other).mp mem), record x other]

theorem rollSlots_frame (own : OwnCallbacksAt fire now hi) {fuel : Nat} :
    ∀ steps {s : Nat} {w : TimerWheel ε κ} {fired : List ε} {w' : TimerWheel ε κ},
      steps ≤ maxTimerSlots → Linked w → rollSlots fire fuel steps s w = some (fired, w') →
      (∀ x, x ∈ fired ↔ ∃ k < steps, x ∈ w.slots ((s + k) % maxTimerSlots)) ∧
        ∀ x, (∀ k < steps, x ∉ w.slots ((s + k) % maxTimerSlots)) → w'.entries x = w.entries x
  | 0, _, _, _, _, _, _, rolled => by
    simp only [rollSlots, Option.some.injEq, Prod.mk.injEq] at rolled
    obtain ⟨rfl, rfl⟩ := rolled
    exact ⟨by simp, fun _ _ => rfl⟩
  | steps + 1, s, w, fired, w', short, linked, rolled => by
    cases drained : drainSlot fire (s % maxTimerSlots) fuel w with
    | none => simp [rollSlots_of_drain_none drained] at rolled
    | some r =>
      obtain ⟨first, w₁⟩ := r
      rw [rollSlots_of_drain drained] at rolled
      obtain ⟨⟨rest, w₂⟩, rolled₁, result⟩ := Option.map_eq_some_iff.mp rolled
      simp only [Prod.mk.injEq] at result
      obtain ⟨rfl, rfl⟩ := result
      obtain ⟨linked₁, members₁, frame₁⟩ := drainSlot_frame own fuel linked drained
      obtain ⟨members, frame⟩ := rollSlots_frame own steps (by omega) linked₁ rolled₁
      -- within a turn the later slots differ from the first, so the drain left their entries
      have later : ∀ x k, k < steps → x ∈ w.slots ((s + 1 + k) % maxTimerSlots) →
          x ∉ w.slots (s % maxTimerSlots) := by
        intro x k lt memK mem
        have same := linked.slot_unique memK mem
        simp only [maxTimerSlots] at same short
        omega
      have kept : ∀ x, x ∉ w.slots (s % maxTimerSlots) → ∀ j, (x ∈ w₁.slots j ↔ x ∈ w.slots j) :=
        fun x out j => linked.mem_congr linked₁ (frame₁ x out) j
      have shift : ∀ k, s + (k + 1) = s + 1 + k := fun k => by omega
      refine ⟨fun x => ?_, fun x outside => ?_⟩
      · rw [List.mem_append, members₁, members]
        constructor
        · rintro (mem | ⟨k, lt, memK⟩)
          · exact ⟨0, by omega, by simpa using mem⟩
          · by_cases inFirst : x ∈ w.slots (s % maxTimerSlots)
            · exact ⟨0, by omega, by simpa using inFirst⟩
            · exact ⟨k + 1, by omega, by rw [shift]; exact (kept x inFirst _).mp memK⟩
        · rintro ⟨k, lt, memK⟩
          cases k with
          | zero => exact Or.inl (by simpa using memK)
          | succ k =>
            rw [shift] at memK
            exact Or.inr ⟨k, by omega, (kept x (later x k (by omega) memK) _).mpr memK⟩
      · have out : x ∉ w.slots (s % maxTimerSlots) := by simpa using outside 0 (by omega)
        rw [frame x fun k lt memK => outside (k + 1) (by omega)
          (by rw [shift]; exact (kept x out _).mp memK), frame₁ x out]

theorem timerWheelRoll_fires_due {w : TimerWheel ε κ} {fuel : Nat}
    (own : OwnCallbacksAt fire now (w.current + maxTimerSlots)) (good : WheelGood w)
    (later : w.current ≤ now) (enough : w.count < fuel) :
    ∃ fired w', timerWheelRoll fire fuel w now = some (fired.length, fired, w') ∧
      w'.current = now ∧ fired.Nodup ∧ (∀ n, n ∈ fired ↔ w.Active n ∧ expireAt w n < now) ∧
      ∀ n, n ∉ fired → w'.entries n = w.entries n := by
  obtain ⟨fired, w', -, rolled, -, current', -, nodup, early⟩ :=
    timerWheelRoll_on_time own.callbacksAt good.linked good.timely later good.noWrap enough
  -- the same roll, as the run of `rollSlots` it is made of
  have unrolled := rolled
  rw [timerWheelRoll_eq fuel later, Nat.mod_eq_of_lt good.noWrap] at unrolled
  obtain ⟨⟨fired₁, w₁⟩, drained, result⟩ := Option.map_eq_some_iff.mp unrolled
  simp only [Prod.mk.injEq] at result
  obtain ⟨-, rfl, rfl⟩ := result
  obtain ⟨members, frame⟩ := rollSlots_frame own _ (by omega) good.linked drained
  refine ⟨fired₁, _, rolled, current', nodup, fun n => ⟨early n, ?_⟩, fun n out => ?_⟩
  · rintro ⟨active, overdue⟩
    obtain ⟨after, before, -⟩ := good.timely n active
    refine (members n).mpr ⟨expireAt w n - w.current, by omega, ?_⟩
    rw [show w.current + (expireAt w n - w.current) = expireAt w n by omega,
      ← (good.timely n active).2.2.1]
    exact (good.linked.active n).mp active
  · exact frame n fun k lt mem => out ((members n).mpr ⟨k, lt, mem⟩)

/-- The wheels the dataplane reaches: `timer_wheel_init` on entries without a callback,
`timer_wheel_start` before any entry is armed, `timer_wheel_entry_init` of an inactive entry,
the calls the code makes at the current tick, and rolls forward whose callbacks make such
calls. -/
inductive WheelReachable (fire : Nat → κ → ε → TimerWheel ε κ → TimerWheel ε κ) (fuel : Nat) :
    TimerWheel ε κ → Prop
  | init {w : TimerWheel ε κ} : (∀ n, ¬ w.Active n) → WheelReachable fire fuel (timerWheelInit w)
  | start {w : TimerWheel ε κ} (now : Nat) : WheelReachable fire fuel w → (∀ n, ¬ w.Active n) →
      now + maxTimerSlots < 2 ^ 32 → WheelReachable fire fuel (timerWheelStart w now)
  | entryInit {w : TimerWheel ε κ} (n : ε) : WheelReachable fire fuel w → ¬ w.Active n →
      WheelReachable fire fuel (timerWheelEntryInit w n)
  | call {w : TimerWheel ε κ} (call : WheelCall ε κ) : WheelReachable fire fuel w →
      CallOk w.current (w.current + maxTimerSlots) w call →
      WheelReachable fire fuel (wheelCall w.current w call)
  | roll {w w' : TimerWheel ε κ} (now : Nat) {fired : List ε} : WheelReachable fire fuel w →
      w.current ≤ now → now + maxTimerSlots < 2 ^ 32 →
      CallbacksAt (fire now) now (w.current + maxTimerSlots) → w.count < fuel →
      timerWheelRoll (fire now) fuel w now = some (fired.length, fired, w') →
      WheelReachable fire fuel w'

variable {w : TimerWheel ε κ}

theorem WheelGood.entryInit (good : WheelGood w) {n : ε} (inactive : ¬ w.Active n) :
    WheelGood (timerWheelEntryInit w n) := by
  refine ⟨good.linked.setEntry_of_inactive (good.linked.not_mem inactive) rfl, fun x active => ?_,
    good.noWrap⟩
  -- the entry made inactive is not among the active ones, whose records stay
  have other : x ≠ n := by
    rintro rfl
    simp [TimerWheel.Active, timerWheelEntryInit, timerWheelEntryIsActive] at active
  have record : (timerWheelEntryInit w n).entries x = w.entries x := by
    simp [timerWheelEntryInit, Function.update_of_ne other]
  have current : (timerWheelEntryInit w n).current = w.current := rfl
  have was : w.Active x := by rwa [TimerWheel.Active, ← record]
  simpa only [expireAt, record, current] using good.timely x was

theorem WheelGood.call (good : WheelGood w) {call : WheelCall ε κ}
    (ok : CallOk w.current (w.current + maxTimerSlots) w call) :
    WheelGood (wheelCall w.current w call) := by
  set w' := wheelCall w.current w call with w'Def
  have current : w'.current = w.current := current_wheelCall call
  have timely : Timely w' (dueAfter w.current w (expireAt w) call) w'.current
      (w'.current + maxTimerSlots) := by
    rw [current]
    exact good.timely.call ok le_rfl good.noWrap.le
  rw [← current] at timely
  exact ⟨good.linked.call ok, timely.of_expireAt le_rfl (by rw [current]; exact good.noWrap.le),
    by rw [current]; exact good.noWrap⟩

theorem WheelGood.roll (good : WheelGood w) {fire : κ → ε → TimerWheel ε κ → TimerWheel ε κ}
    {now fuel : Nat} (later : w.current ≤ now) (noWrap : now + maxTimerSlots < 2 ^ 32)
    (callbacks : CallbacksAt fire now (w.current + maxTimerSlots)) (enough : w.count < fuel)
    {fired : List ε} {w' : TimerWheel ε κ}
    (rolled : timerWheelRoll fire fuel w now = some (fired.length, fired, w')) : WheelGood w' := by
  obtain ⟨fired', w'', due', rolled', linked', current', timely', -⟩ :=
    timerWheelRoll_on_time callbacks good.linked good.timely later good.noWrap enough
  have same : w'' = w' := by
    rw [rolled] at rolled'
    simp only [Option.some.injEq, Prod.mk.injEq] at rolled'
    exact rolled'.2.2.symm
  subst same
  rw [← current'] at timely' noWrap
  exact ⟨linked', timely'.of_expireAt le_rfl noWrap.le, noWrap⟩

theorem WheelReachable.good {fire : Nat → κ → ε → TimerWheel ε κ → TimerWheel ε κ} {fuel : Nat}
    (reach : WheelReachable fire fuel w) : WheelGood w := by
  induction reach with
  | init inactive => exact wheelGood_timerWheelInit inactive
  | start now _ inactive noWrap good =>
    exact wheelGood_of_inactive (good.linked.withCurrent now) inactive noWrap
  | entryInit n _ inactive good => exact good.entryInit inactive
  | call call _ ok good => exact good.call ok
  | roll now _ later noWrap callbacks enough rolled good =>
    exact good.roll later noWrap callbacks enough rolled

/-- In every wheel the dataplane reaches, a roll forward whose callbacks work only on their own
entry returns to a wheel it reaches again. It fires exactly the active entries that
`get_expire_at` puts before `now`, each once. Every other entry keeps its record, and an active
one is still due at the same time, read from the new `current`. -/
theorem wheelReachable_roll_fires_due {fire : Nat → κ → ε → TimerWheel ε κ → TimerWheel ε κ}
    {fuel : Nat} (reach : WheelReachable fire fuel w) {now : Nat} (later : w.current ≤ now)
    (noWrap : now + maxTimerSlots < 2 ^ 32)
    (own : OwnCallbacksAt (fire now) now (w.current + maxTimerSlots)) (enough : w.count < fuel) :
    ∃ fired w', timerWheelRoll (fire now) fuel w now = some (fired.length, fired, w') ∧
      WheelReachable fire fuel w' ∧ fired.Nodup ∧
      (∀ n, n ∈ fired ↔ w.Active n ∧ expireAt w n < now) ∧
      ∀ n, n ∉ fired → w'.entries n = w.entries n ∧ (w.Active n → expireAt w' n = expireAt w n) := by
  have good := reach.good
  obtain ⟨fired, w', rolled, current', nodup, members, frame⟩ :=
    timerWheelRoll_fires_due own good later enough
  refine ⟨fired, w', rolled, reach.roll now later noWrap own.callbacksAt enough rolled, nodup,
    members, fun n out => ⟨frame n out, fun active => ?_⟩⟩
  -- an entry that did not fire was not due before `now`
  have notDue : now ≤ expireAt w n := by
    by_contra early
    exact out ((members n).mpr ⟨active, by omega⟩)
  obtain ⟨after, before, slot, -⟩ := good.timely n active
  rw [expireAt, frame n out, current']
  exact getExpireAt_eq active slot notDue (by omega) (by omega)

end steps

/-- Entry `0` is started at `0` with timeout `1`, and its callback starts it again with timeout
`5` at the tick of the roll: the roll to `3` fires entry `0`, and nothing else. -/
theorem wheelReachable_roll_fires_due_restart :
    ∃ fired w', timerWheelRoll (fun (_ : Unit) (x : Nat) w => timerWheelEntryStart w x (some ()) 5 3)
      10 (wheelCall 0 (timerWheelInit ⟨fun _ => [], 0, 0, fun _ => ⟨none, 65535, 0⟩⟩)
        (.start 0 (some ()) 1)) 3 = some (fired.length, fired, w') ∧
      fired.Nodup ∧ ∀ n, n ∈ fired ↔ n = 0 := by
  set w₀ := timerWheelInit (⟨fun _ => [], 0, 0, fun _ => ⟨none, 65535, 0⟩⟩ : TimerWheel Nat Unit)
    with w₀Def
  have inactive : ∀ n, ¬ w₀.Active n := by
    simp [w₀Def, TimerWheel.Active, timerWheelInit, timerWheelEntryIsActive]
  have reach : WheelReachable (fun now (_ : Unit) (x : Nat) w => timerWheelEntryStart w x (some ()) 5 now)
      10 (wheelCall 0 w₀ (.start 0 (some ()) 1)) :=
    WheelReachable.call (.start 0 (some ()) 1) (WheelReachable.init inactive)
      ⟨inactive 0, rfl, by decide⟩
  have own : OwnCallbacksAt (fun (_ : Unit) (x : Nat) w => timerWheelEntryStart w x (some ()) 5 3) 3
      ((wheelCall 0 w₀ (.start 0 (some ()) 1)).current + maxTimerSlots) := by
    intro _ n w _ off
    exact ⟨[.start n (some ()) 5], rfl,
      ⟨⟨off, rfl, show 3 + clampTimeout 5 < 0 + maxTimerSlots by decide⟩, trivial⟩,
      by simp [WheelCall.entry]⟩
  obtain ⟨fired, w', rolled, -, nodup, members, -⟩ :=
    wheelReachable_roll_fires_due reach (by decide) (by decide) own (by decide)
  refine ⟨fired, w', rolled, nodup, fun n => ?_⟩
  rw [members n]
  by_cases atZero : n = 0
  · subst atZero
    simp [wheelCall, TimerWheel.Active, timerWheelEntryIsActive, expireAt, getExpireAt, w₀Def,
      timerWheelInit, clampTimeout, maxTimerSlots]
  · simp [wheelCall, TimerWheel.Active, timerWheelEntryIsActive, timerWheelEntryStart,
      entries_timerWheelEntryInsert, w₀Def, timerWheelInit, atZero]

/-! ### `meter_release`: a callback that links its entry without a callback -/

section meter

variable [DecidableEq ε]

/-- What `meter_release` (`dpi_meter.c`), the callback of a meter's entry, does to the wheel when
the roll at the tick `now` calls it on the unlinked entry: a count meter, not a rate one, that
still counts sessions links its entry again with `timer_wheel_entry_insert`; any other meter is
freed, which leaves the wheel alone. -/
def meterRelease (rate : Bool) (count now : Nat) (n : ε) (w : TimerWheel ε κ) : TimerWheel ε κ :=
  if !rate && count != 0 then timerWheelEntryInsert w n now else w

/-- `meter_release` on a count meter that still counts sessions links the entry back without its
callback, which the roll cleared: the entry sits in the slot of its timeout from `now` yet is not
active, so the wheel is no longer linked. `timer_wheel_entry_refresh`, all that `meter_inc` and
`meter_dec` later do to the entry, keeps it so, and the roll that reaches it calls through
`NULL`. -/
theorem meterRelease_unarmed (w : TimerWheel ε κ) (n : ε) {count : Nat} (left : count ≠ 0)
    (now : Nat) :
    let w' := meterRelease false count now n (timerWheelEntryRemove w n)
    n ∈ w'.slots ((now + (w.entries n).timeout) % 2 ^ 32 % maxTimerSlots) ∧ ¬ w'.Active n ∧
      ¬ Linked w' ∧ ∀ later, ¬ (timerWheelEntryRefresh w' n later).Active n ∧
        n ∈ (timerWheelEntryRefresh w' n later).slots
          ((later + (w.entries n).timeout) % 2 ^ 32 % maxTimerSlots) := by
  intro w'
  have inserted : w' = timerWheelEntryInsert (timerWheelEntryRemove w n) n now := by
    simp [w', meterRelease, left]
  have record : w'.entries n =
      ⟨none, (now + (w.entries n).timeout) % 2 ^ 32 % maxTimerSlots, (w.entries n).timeout⟩ := by
    rw [inserted, entries_timerWheelEntryInsert]
    simp [entries_timerWheelEntryRemove]
  have linkedIn : n ∈ w'.slots ((now + (w.entries n).timeout) % 2 ^ 32 % maxTimerSlots) := by
    rw [inserted, slots_timerWheelEntryInsert]
    simp [entries_timerWheelEntryRemove]
  have off : ¬ w'.Active n := by
    simp [TimerWheel.Active, timerWheelEntryIsActive, record]
  refine ⟨linkedIn, off, fun linked => off ((linked.active n).mpr ?_), fun later => ⟨?_, ?_⟩⟩
  · rw [record]
    exact linkedIn
  · -- the refresh puts back the callback it found, which is none
    simp [TimerWheel.Active, timerWheelEntryIsActive, record]
  · simp [timerWheelEntryRefresh, slots_timerWheelEntryInsert, entries_timerWheelEntryRemove,
      record]

/-- A count meter started at `0` with timeout `3` still counts a session when its timer expires:
the roll to `4` fires it and `meter_release` links it again, into the slot `7`, and the roll to
`8` calls through `NULL` there. -/
theorem meterRelease_unarmed_crash : ∃ w₁,
    timerWheelRoll (fun (_ : Unit) (x : Nat) w => meterRelease false 1 4 x w) 10
      (wheelCall 0 (timerWheelInit ⟨fun _ => [], 0, 0, fun _ => ⟨none, 65535, 0⟩⟩)
        (.start 0 (some ()) 3)) 4 = some (1, [0], w₁) ∧
    timerWheelRoll (fun (_ : Unit) (x : Nat) w => meterRelease false 1 8 x w) 10 w₁ 8 = none := by
  set w₀ := wheelCall 0 (timerWheelInit (⟨fun _ => [], 0, 0, fun _ => ⟨none, 65535, 0⟩⟩ :
    TimerWheel Nat Unit)) (.start 0 (some ()) 3) with w₀Def
  set w' := meterRelease false 1 4 0 (timerWheelEntryRemove w₀ 0) with w'Def
  obtain ⟨-, off, -, -⟩ := meterRelease_unarmed w₀ 0 (by decide : (1 : Nat) ≠ 0) 4
  have at₀ : (0 + clampTimeout 3) % 2 ^ 32 % maxTimerSlots = 3 := by decide
  have slots₀ : ∀ i, w₀.slots i = if i = 3 then [0] else [] := by
    intro i
    rw [w₀Def, wheelCall, slots_timerWheelEntryStart, at₀]
    by_cases h3 : i = 3 <;> simp [h3, timerWheelInit]
  have timeout₀ : (w₀.entries 0).timeout = 3 := by
    simp [w₀Def, wheelCall, clampTimeout, maxTimerSlots]
  -- `meter_release` moves the entry from the slot `3` to the slot `7`
  have slots₁ : ∀ i, w'.slots i = if i = 7 then [0] else [] := by
    intro i
    rw [w'Def, meterRelease, if_pos (by decide), slots_timerWheelEntryInsert,
      show (timerWheelEntryRemove w₀ 0).entries 0 = { w₀.entries 0 with callback := none } by
        simp [entries_timerWheelEntryRemove], timeout₀,
      show (4 + 3) % 2 ^ 32 % maxTimerSlots = 7 by decide]
    by_cases h7 : i = 7 <;> by_cases h3 : i = 3 <;> simp [h7, h3, slots₀]
  have unarmed : (w'.entries 0).callback = none := by
    simpa [TimerWheel.Active, timerWheelEntryIsActive] using off
  have d3 : drainSlot (fun (_ : Unit) (x : Nat) w => meterRelease false 1 4 x w) 3 10 w₀ =
      some ([0], w') := by
    have armed : (w₀.entries 0).callback = some () := by simp [w₀Def, wheelCall]
    rw [drainSlot, slots₀, if_pos rfl]
    simp only [armed]
    rw [← w'Def, drainSlot_nil (by rw [slots₁]; rfl) 8]
    rfl
  set w₁ : TimerWheel Nat Unit := { w' with current := 4 } with w₁Def
  have start₁ : w₁.current = 4 := rfl
  have empty₁ : ∀ i, i ≠ 7 → w₁.slots i = [] := fun i other => by
    rw [w₁Def, slots₁, if_neg other]
  refine ⟨w₁, ?_, ?_⟩
  · have start : w₀.current = 0 := rfl
    rw [timerWheelRoll_eq 10 (start ▸ Nat.zero_le 4), start,
      show min 4 ((0 + maxTimerSlots) % 2 ^ 32) - 0 = 4 by decide,
      rollSlots_of_drain (drainSlot_nil (by rw [slots₀]; rfl) 9),
      rollSlots_of_drain (drainSlot_nil (by rw [slots₀]; rfl) 9),
      rollSlots_of_drain (drainSlot_nil (by rw [slots₀]; rfl) 9), rollSlots_of_drain d3]
    rfl
  · -- the slot `7` starts with the entry, which has no callback
    have d7 : drainSlot (fun (_ : Unit) (x : Nat) w => meterRelease false 1 8 x w) 7 10 w₁ =
        none := by
      simp [drainSlot, w₁Def, slots₁, unarmed]
    rw [timerWheelRoll_eq 10 (start₁ ▸ show 4 ≤ 8 by decide), start₁,
      show min 8 ((4 + maxTimerSlots) % 2 ^ 32) - 4 = 4 by decide,
      rollSlots_of_drain (drainSlot_nil (empty₁ 4 (by decide)) 9),
      rollSlots_of_drain (drainSlot_nil (empty₁ 5 (by decide)) 9),
      rollSlots_of_drain (drainSlot_nil (empty₁ 6 (by decide)) 9),
      rollSlots_of_drain_none d7]
    rfl

end meter

end MicroSegment.Dp
