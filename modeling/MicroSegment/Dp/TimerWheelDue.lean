import MicroSegment.Dp.TimerWheelInv

/-!
# When the entries of the timer wheel are due

The wheel stores an entry's slot, not its time. The time is ghost state here: `due`, set to
`now + timeout` when an entry is armed at `now`. `Timely w due lo hi` says that every active
entry is due at a time in `[lo, hi)` and sits in that time's slot, with a timeout below a turn.

The code that uses the wheel works on it through `WheelCall`s at the time `now` it passes:
`timer_wheel_entry_start` of an inactive entry, `timer_wheel_entry_refresh` and
`timer_wheel_entry_remove` of an active one, and the setters. While the calls arm entries before
`hi`, they keep `Linked` and `Timely` (`calls_keep`). An entry that is active and due before
`now` afterwards was so before, at the same time.

`get_expire_at` reads the time back from the slot, so from an entry's arming until it is due,
its life and idle time are the time left and the time since arming (`timerWheelEntry_life_idle`).
-/

namespace MicroSegment.Dp

variable {ε κ : Type}

/-- A call a user of the wheel makes. -/
inductive WheelCall (ε κ : Type)
  | start (n : ε) (cb : Option κ) (timeout : Nat)
  | refresh (n : ε)
  | remove (n : ε)
  | setCallback (n : ε) (cb : Option κ)
  | setTimeout (n : ε) (timeout : Nat)

def WheelCall.entry : WheelCall ε κ → ε
  | .start n _ _ => n
  | .refresh n => n
  | .remove n => n
  | .setCallback n _ => n
  | .setTimeout n _ => n

/-- Each active entry is due in `[lo, hi)`, sits in its time's slot, and has a timeout below a
turn. -/
def Timely (w : TimerWheel ε κ) (due : ε → Nat) (lo hi : Nat) : Prop :=
  ∀ n, w.Active n → lo ≤ due n ∧ due n < hi ∧
    (w.entries n).expireSlot = due n % maxTimerSlots ∧ (w.entries n).timeout < maxTimerSlots

theorem Timely.mono {w : TimerWheel ε κ} {due : ε → Nat} {lo hi lo' hi' : Nat}
    (timely : Timely w due lo hi) (low : lo' ≤ lo) (high : hi ≤ hi') : Timely w due lo' hi' :=
  fun n active => by
    obtain ⟨after, before, rest⟩ := timely n active
    exact ⟨le_trans low after, lt_of_lt_of_le before high, rest⟩

theorem clampTimeout_lt (timeout : Nat) : clampTimeout timeout < maxTimerSlots := by
  unfold clampTimeout
  split
  · decide
  · omega

section calls

variable [DecidableEq ε]

def wheelCall (now : Nat) (w : TimerWheel ε κ) : WheelCall ε κ → TimerWheel ε κ
  | .start n cb t => timerWheelEntryStart w n cb t now
  | .refresh n => timerWheelEntryRefresh w n now
  | .remove n => timerWheelEntryRemove w n
  | .setCallback n cb => timerWheelEntrySetCallback w n cb
  | .setTimeout n t => timerWheelEntrySetTimeout w n t

/-- The calls the code makes, arming entries before `hi`: it starts inactive entries with a
callback, and refreshes, removes and sets the callback of active ones. -/
def CallOk (now hi : Nat) (w : TimerWheel ε κ) : WheelCall ε κ → Prop
  | .start n cb t => ¬ w.Active n ∧ cb.isSome ∧ now + clampTimeout t < hi
  | .refresh n => w.Active n ∧ now + (w.entries n).timeout < hi
  | .remove n => w.Active n
  | .setCallback n cb => w.Active n ∧ cb.isSome
  | .setTimeout _ _ => True

def dueAfter (now : Nat) (w : TimerWheel ε κ) (due : ε → Nat) : WheelCall ε κ → ε → Nat
  | .start n _ t => Function.update due n (now + clampTimeout t)
  | .refresh n => Function.update due n (now + (w.entries n).timeout)
  | _ => due

variable {now hi : Nat} {w : TimerWheel ε κ} {due : ε → Nat}

theorem entries_wheelCall_of_ne {call : WheelCall ε κ} {x : ε} (other : x ≠ call.entry) :
    (wheelCall now w call).entries x = w.entries x := by
  cases call <;> simp only [WheelCall.entry] at other
  all_goals simp [wheelCall, timerWheelEntryStart, timerWheelEntryRefresh, timerWheelEntrySetCallback,
    timerWheelEntrySetTimeout, entries_timerWheelEntryInsert, entries_timerWheelEntryRemove,
    Function.update_of_ne other]
  all_goals split <;> simp [Function.update_of_ne other]

theorem dueAfter_of_ne {call : WheelCall ε κ} {x : ε} (other : x ≠ call.entry) :
    dueAfter now w due call x = due x := by
  cases call <;> simp only [WheelCall.entry] at other <;> simp [dueAfter, Function.update_of_ne other]

theorem Linked.call (linked : Linked w) {call : WheelCall ε κ} (ok : CallOk now hi w call) :
    Linked (wheelCall now w call) := by
  cases call with
  | start n cb t => exact linked.start ok.1 ok.2.1 t now
  | refresh n => exact linked.refresh ok.1 now
  | remove n => exact (linked.remove ok).1
  | setCallback n cb => exact linked.setCallback ok.1 ok.2
  | setTimeout n t => exact linked.setTimeout t

theorem expireSlot_of_arm {t : Nat} (noWrap : now + t < 2 ^ 32) :
    (now + t) % 2 ^ 32 % maxTimerSlots = (now + t) % maxTimerSlots := by
  rw [Nat.mod_eq_of_lt noWrap]

theorem Timely.call (timely : Timely w due lo hi) {call : WheelCall ε κ}
    (ok : CallOk now hi w call) (early : lo ≤ now) (noWrap : hi ≤ 2 ^ 32) :
    Timely (wheelCall now w call) (dueAfter now w due call) lo hi := by
  intro x active
  by_cases atEntry : x = call.entry
  · subst atEntry
    cases call with
    | start n cb t =>
      obtain ⟨-, -, before⟩ := ok
      simp only [wheelCall, dueAfter, WheelCall.entry, Function.update_self,
        entry_timerWheelEntryStart]
      exact ⟨by omega, before, expireSlot_of_arm (by omega), clampTimeout_lt t⟩
    | refresh n =>
      obtain ⟨was, before⟩ := ok
      obtain ⟨-, -, -, short⟩ := timely n was
      simp only [wheelCall, dueAfter, WheelCall.entry, Function.update_self,
        entry_timerWheelEntryRefresh]
      exact ⟨by omega, before, expireSlot_of_arm (by omega), short⟩
    | remove n =>
      simp [wheelCall, TimerWheel.Active, timerWheelEntryIsActive, entries_timerWheelEntryRemove,
        WheelCall.entry] at active
    | setCallback n cb =>
      obtain ⟨was, -⟩ := ok
      simpa [wheelCall, dueAfter, WheelCall.entry, timerWheelEntrySetCallback] using timely n was
    | setTimeout n t =>
      simp only [wheelCall, dueAfter, WheelCall.entry, TimerWheel.Active,
        entry_timerWheelEntrySetTimeout] at active ⊢
      by_cases long : t ≥ maxTimerSlots
      · rw [if_pos long] at active ⊢
        exact timely n active
      · rw [if_neg long] at active ⊢
        obtain ⟨after, before, slot, -⟩ := timely n active
        exact ⟨after, before, slot, show t < maxTimerSlots by omega⟩
  · have same : (wheelCall now w call).entries x = w.entries x := entries_wheelCall_of_ne atEntry
    have was : w.Active x := by simpa [TimerWheel.Active, same] using active
    rw [same, dueAfter_of_ne atEntry]
    exact timely x was

theorem overdue_of_call {call : WheelCall ε κ} (ok : CallOk now hi w call) {x : ε}
    (active : (wheelCall now w call).Active x) (overdue : dueAfter now w due call x < now) :
    w.Active x ∧ dueAfter now w due call x = due x := by
  by_cases atEntry : x = call.entry
  · subst atEntry
    cases call with
    | start n cb t => simp [dueAfter, WheelCall.entry] at overdue
    | refresh n => simp [dueAfter, WheelCall.entry] at overdue
    | remove n =>
      simp [wheelCall, TimerWheel.Active, timerWheelEntryIsActive, entries_timerWheelEntryRemove,
        WheelCall.entry] at active
    | setCallback n cb => exact ⟨ok.1, rfl⟩
    | setTimeout n t =>
      refine ⟨?_, rfl⟩
      simp only [wheelCall, WheelCall.entry, TimerWheel.Active,
        entry_timerWheelEntrySetTimeout] at active
      split at active
      · exact active
      · exact active
  · have same : (wheelCall now w call).entries x = w.entries x := entries_wheelCall_of_ne atEntry
    exact ⟨by simpa [TimerWheel.Active, same] using active, dueAfter_of_ne atEntry⟩

def wheelCalls (now : Nat) (w : TimerWheel ε κ) (calls : List (WheelCall ε κ)) : TimerWheel ε κ :=
  calls.foldl (wheelCall now) w

theorem current_wheelCall (call : WheelCall ε κ) : (wheelCall now w call).current = w.current := by
  cases call <;> simp [wheelCall, timerWheelEntryRefresh, timerWheelEntrySetCallback,
    timerWheelEntrySetTimeout, apply_ite TimerWheel.current]

theorem entries_wheelCalls_of_ne {n x : ε} (other : x ≠ n) :
    ∀ (calls : List (WheelCall ε κ)) (w : TimerWheel ε κ), (∀ call ∈ calls, call.entry = n) →
      (wheelCalls now w calls).entries x = w.entries x
  | [], _, _ => rfl
  | call :: calls, w, own => by
    have first : (wheelCall now w call).entries x = w.entries x :=
      entries_wheelCall_of_ne (own call List.mem_cons_self ▸ other)
    have rest := entries_wheelCalls_of_ne other calls (wheelCall now w call)
      fun c mem => own c (List.mem_cons_of_mem _ mem)
    simp only [wheelCalls, List.foldl_cons] at rest ⊢
    rw [rest, first]

/-- Every call of a run is one the code makes, in the state the calls before it leave. -/
def CallsOk (now hi : Nat) : TimerWheel ε κ → List (WheelCall ε κ) → Prop
  | _, [] => True
  | w, call :: calls => CallOk now hi w call ∧ CallsOk now hi (wheelCall now w call) calls

theorem Linked.calls : ∀ {w : TimerWheel ε κ} (calls : List (WheelCall ε κ)), Linked w →
    CallsOk now hi w calls → Linked (wheelCalls now w calls)
  | _, [], linked, _ => linked
  | _, _ :: calls, linked, ⟨ok, rest⟩ => Linked.calls calls (linked.call ok) rest

def dueCalls (now : Nat) : TimerWheel ε κ → (ε → Nat) → List (WheelCall ε κ) → ε → Nat
  | _, due, [] => due
  | w, due, call :: calls => dueCalls now (wheelCall now w call) (dueAfter now w due call) calls

/-- A run of the calls the code makes keeps the links and the due times, and leaves the entries
due before `now` as they were. -/
theorem calls_keep (early : lo ≤ now) (noWrap : hi ≤ 2 ^ 32) :
    ∀ (calls : List (WheelCall ε κ)) {w : TimerWheel ε κ} {due : ε → Nat}, Linked w →
      Timely w due lo hi → CallsOk now hi w calls →
      Linked (wheelCalls now w calls) ∧ Timely (wheelCalls now w calls) (dueCalls now w due calls) lo hi ∧
        ∀ x, (wheelCalls now w calls).Active x → dueCalls now w due calls x < now →
          w.Active x ∧ dueCalls now w due calls x = due x
  | [], _, _, linked, timely, _ => ⟨linked, timely, fun _ active _ => ⟨active, rfl⟩⟩
  | call :: calls, w, due, linked, timely, ⟨ok, rest⟩ => by
    obtain ⟨linked', timely', overdue'⟩ :=
      calls_keep early noWrap calls (linked.call ok) (timely.call ok early noWrap) rest
    refine ⟨linked', timely', fun x active overdue => ?_⟩
    obtain ⟨was, same⟩ := overdue' x active overdue
    have before : dueAfter now w due call x < now := same ▸ overdue
    obtain ⟨was', same'⟩ := overdue_of_call ok was before
    exact ⟨was', same.trans same'⟩

end calls

/-! ### `get_life` and `get_idle` -/

theorem getExpireAt_eq {e : TimerEntry κ} {due now : Nat} (armed : e.callback.isSome)
    (slot : e.expireSlot = due % maxTimerSlots) (after : now ≤ due) (within : due < now + maxTimerSlots)
    (noWrap : due < 2 ^ 32) : getExpireAt e now = due := by
  obtain ⟨f, hf⟩ := Option.isSome_iff_exists.mp armed
  unfold getExpireAt
  simp only [hf, Option.isNone_some, Bool.false_or, slot, maxTimerSlots, decide_eq_true_eq]
  simp only [maxTimerSlots] at within
  split_ifs with inWheel
  · rw [Nat.mod_eq_of_lt (by omega)]
    omega
  · rw [Nat.mod_eq_of_lt (by omega)]
    omega

/-- From an entry's arming at `n0` until it is due, `timer_wheel_entry_get_life` is the time left
and `timer_wheel_entry_get_idle` the time since arming. -/
theorem timerWheelEntry_life_idle {e : TimerEntry κ} {n0 now : Nat} (armed : e.callback.isSome)
    (slot : e.expireSlot = (n0 + e.timeout) % maxTimerSlots) (short : e.timeout < maxTimerSlots)
    (noWrap : n0 + e.timeout < 2 ^ 32) (armedBefore : n0 ≤ now) (notDue : now ≤ n0 + e.timeout) :
    timerWheelEntryGetLife e now = n0 + e.timeout - now ∧
      timerWheelEntryGetIdle e now = now - n0 := by
  have expire := getExpireAt_eq armed slot notDue (by omega) noWrap
  simp only [maxTimerSlots] at short
  unfold timerWheelEntryGetLife timerWheelEntryGetIdle
  rw [expire]
  -- every difference is below a turn, so no `uint32` or `uint16` wrap happens
  constructor <;> omega

/-- Two records `timer_wheel_entry_start` writes: at `100` with timeout `30`, read at `110`; and at
`3590` with timeout `20`, whose slot `10` comes round after the wheel's last slot, read at `3595`. -/
theorem timerWheelEntry_life_idle_samples :
    (timerWheelEntryGetLife (⟨some (), 130, 30⟩ : TimerEntry Unit) 110 = 20 ∧
      timerWheelEntryGetIdle (⟨some (), 130, 30⟩ : TimerEntry Unit) 110 = 10) ∧
    (timerWheelEntryGetLife (⟨some (), 10, 20⟩ : TimerEntry Unit) 3595 = 15 ∧
      timerWheelEntryGetIdle (⟨some (), 10, 20⟩ : TimerEntry Unit) 3595 = 5) :=
  ⟨@timerWheelEntry_life_idle Unit ⟨some (), 130, 30⟩ 100 110 rfl (by decide) (by decide)
      (by decide) (by decide) (by decide),
    @timerWheelEntry_life_idle Unit ⟨some (), 10, 20⟩ 3590 3595 rfl (by decide) (by decide)
      (by decide) (by decide) (by decide)⟩

end MicroSegment.Dp
