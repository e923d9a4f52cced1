import Mathlib

/-!
# The timer wheel of the dataplane (`dp/utils/timer_wheel.c`)

A wheel of `MAX_TIMER_SLOTS` slots, each a list of entries linked at its tail. An entry armed at
`now` with `timeout` is linked in the slot `(now + timeout) % MAX_TIMER_SLOTS`, and
`timer_wheel_roll` drains the slots from `current` up to `now` (one turn of the wheel at most),
calling each entry's callback after unlinking it. A callback runs code of its own on the wheel,
so the roll takes it as a parameter `fire`. Entries are addresses `ε` with their records in
`entries`; a callback is a name `κ`, with `none` for `NULL`. Times are `uint32` and wrap at
`2 ^ 32`; `count` is a `Nat`, so a wheel of `2 ^ 32` entries is out of scope.

The inner loop of the roll runs until the slot is empty, which a callback that links entries
into that slot can put off for ever, so it takes fuel.
-/

namespace MicroSegment.Dp

def maxTimerSlots : Nat := 3600

/-- `timer_entry_t`, without its link, which `TimerWheel.slots` holds. -/
structure TimerEntry (κ : Type) where
  callback : Option κ
  expireSlot : Nat
  timeout : Nat
  deriving DecidableEq, Repr

/-- `timer_wheel_t`, with the records of the entries. -/
structure TimerWheel (ε κ : Type) where
  slots : Nat → List ε
  count : Nat
  current : Nat
  entries : ε → TimerEntry κ

variable {ε κ : Type}

def timerWheelEntryIsActive (e : TimerEntry κ) : Bool := e.callback.isSome

/-- `timer_wheel_init`; the entries are not touched. -/
def timerWheelInit (w : TimerWheel ε κ) : TimerWheel ε κ :=
  { w with slots := fun _ => [], current := 0, count := 0 }

def timerWheelStart (w : TimerWheel ε κ) (now : Nat) : TimerWheel ε κ := { w with current := now }

section ops

variable [DecidableEq ε]

def TimerWheel.setEntry (w : TimerWheel ε κ) (n : ε) (e : TimerEntry κ) : TimerWheel ε κ :=
  { w with entries := Function.update w.entries n e }

/-- `timer_wheel_entry_init`, on an entry that is not linked. -/
def timerWheelEntryInit (w : TimerWheel ε κ) (n : ε) : TimerWheel ε κ :=
  w.setEntry n { w.entries n with expireSlot := 65535, callback := none }

def timerWheelEntrySetCallback (w : TimerWheel ε κ) (n : ε) (cb : Option κ) : TimerWheel ε κ :=
  w.setEntry n { w.entries n with callback := cb }

/-- `timer_wheel_entry_set_timeout`: a timeout of a turn or more is ignored. -/
def timerWheelEntrySetTimeout (w : TimerWheel ε κ) (n : ε) (timeout : Nat) : TimerWheel ε κ :=
  if timeout ≥ maxTimerSlots then w else w.setEntry n { w.entries n with timeout := timeout }

/-- `timer_wheel_entry_insert`: link at the tail of the slot of `now + timeout`. -/
def timerWheelEntryInsert (w : TimerWheel ε κ) (n : ε) (now : Nat) : TimerWheel ε κ :=
  let expireAt := (now + (w.entries n).timeout) % 2 ^ 32
  let slot := expireAt % maxTimerSlots
  let w := w.setEntry n { w.entries n with expireSlot := slot }
  { w with slots := Function.update w.slots slot (w.slots slot ++ [n]), count := w.count + 1 }

/-- `timer_wheel_entry_remove`: `cds_list_del` takes the entry out of the list it is in. -/
def timerWheelEntryRemove (w : TimerWheel ε κ) (n : ε) : TimerWheel ε κ :=
  let w := { w with slots := fun i => (w.slots i).erase n, count := w.count - 1 }
  w.setEntry n { w.entries n with callback := none }

/-- `timer_wheel_entry_refresh`: unlink and link again from `now`, keeping the callback. -/
def timerWheelEntryRefresh (w : TimerWheel ε κ) (n : ε) (now : Nat) : TimerWheel ε κ :=
  let fn := (w.entries n).callback
  let w := timerWheelEntryRemove w n
  let w := w.setEntry n { w.entries n with callback := fn }
  timerWheelEntryInsert w n now

/-- The timeout `timer_wheel_entry_start` keeps: one of a turn or more becomes `0`. -/
def clampTimeout (timeout : Nat) : Nat := if timeout ≥ maxTimerSlots then 0 else timeout

def timerWheelEntryStart (w : TimerWheel ε κ) (n : ε) (cb : Option κ) (timeout now : Nat) :
    TimerWheel ε κ :=
  let w := w.setEntry n { w.entries n with callback := cb, timeout := clampTimeout timeout }
  timerWheelEntryInsert w n now

@[simp] theorem slots_setEntry (w : TimerWheel ε κ) (n : ε) (e : TimerEntry κ) :
    (w.setEntry n e).slots = w.slots := rfl

@[simp] theorem count_setEntry (w : TimerWheel ε κ) (n : ε) (e : TimerEntry κ) :
    (w.setEntry n e).count = w.count := rfl

@[simp] theorem current_setEntry (w : TimerWheel ε κ) (n : ε) (e : TimerEntry κ) :
    (w.setEntry n e).current = w.current := rfl

@[simp] theorem entries_setEntry (w : TimerWheel ε κ) (n : ε) (e : TimerEntry κ) :
    (w.setEntry n e).entries = Function.update w.entries n e := rfl

@[simp] theorem setEntry_setEntry (w : TimerWheel ε κ) (n : ε) (e e' : TimerEntry κ) :
    (w.setEntry n e).setEntry n e' = w.setEntry n e' := by
  simp [TimerWheel.setEntry]

@[simp] theorem setEntry_self (w : TimerWheel ε κ) (n : ε) : w.setEntry n (w.entries n) = w := by
  simp [TimerWheel.setEntry]

theorem slots_timerWheelEntryInsert (w : TimerWheel ε κ) (n : ε) (now : Nat) :
    (timerWheelEntryInsert w n now).slots =
      Function.update w.slots ((now + (w.entries n).timeout) % 2 ^ 32 % maxTimerSlots)
        (w.slots ((now + (w.entries n).timeout) % 2 ^ 32 % maxTimerSlots) ++ [n]) := rfl

@[simp] theorem count_timerWheelEntryInsert (w : TimerWheel ε κ) (n : ε) (now : Nat) :
    (timerWheelEntryInsert w n now).count = w.count + 1 := rfl

@[simp] theorem current_timerWheelEntryInsert (w : TimerWheel ε κ) (n : ε) (now : Nat) :
    (timerWheelEntryInsert w n now).current = w.current := rfl

theorem entries_timerWheelEntryInsert (w : TimerWheel ε κ) (n : ε) (now : Nat) :
    (timerWheelEntryInsert w n now).entries = Function.update w.entries n
      { w.entries n with expireSlot := (now + (w.entries n).timeout) % 2 ^ 32 % maxTimerSlots } :=
  rfl

@[simp] theorem slots_timerWheelEntryRemove (w : TimerWheel ε κ) (n : ε) (i : Nat) :
    (timerWheelEntryRemove w n).slots i = (w.slots i).erase n := rfl

@[simp] theorem count_timerWheelEntryRemove (w : TimerWheel ε κ) (n : ε) :
    (timerWheelEntryRemove w n).count = w.count - 1 := rfl

@[simp] theorem current_timerWheelEntryRemove (w : TimerWheel ε κ) (n : ε) :
    (timerWheelEntryRemove w n).current = w.current := rfl

theorem entries_timerWheelEntryRemove (w : TimerWheel ε κ) (n : ε) :
    (timerWheelEntryRemove w n).entries =
      Function.update w.entries n { w.entries n with callback := none } := rfl

@[simp] theorem entry_timerWheelEntryStart (w : TimerWheel ε κ) (n : ε) (cb : Option κ)
    (timeout now : Nat) :
    (timerWheelEntryStart w n cb timeout now).entries n =
      { callback := cb, expireSlot := (now + clampTimeout timeout) % 2 ^ 32 % maxTimerSlots,
        timeout := clampTimeout timeout } := by
  simp [timerWheelEntryStart, entries_timerWheelEntryInsert]

@[simp] theorem entry_timerWheelEntryRefresh (w : TimerWheel ε κ) (n : ε) (now : Nat) :
    (timerWheelEntryRefresh w n now).entries n =
      { w.entries n with expireSlot := (now + (w.entries n).timeout) % 2 ^ 32 % maxTimerSlots } := by
  simp [timerWheelEntryRefresh, entries_timerWheelEntryInsert, entries_timerWheelEntryRemove]

theorem slots_timerWheelEntryStart (w : TimerWheel ε κ) (n : ε) (cb : Option κ)
    (timeout now : Nat) :
    (timerWheelEntryStart w n cb timeout now).slots =
      Function.update w.slots ((now + clampTimeout timeout) % 2 ^ 32 % maxTimerSlots)
        (w.slots ((now + clampTimeout timeout) % 2 ^ 32 % maxTimerSlots) ++ [n]) := by
  simp [timerWheelEntryStart, slots_timerWheelEntryInsert]

@[simp] theorem count_timerWheelEntryStart (w : TimerWheel ε κ) (n : ε) (cb : Option κ)
    (timeout now : Nat) : (timerWheelEntryStart w n cb timeout now).count = w.count + 1 := rfl

@[simp] theorem current_timerWheelEntryStart (w : TimerWheel ε κ) (n : ε) (cb : Option κ)
    (timeout now : Nat) : (timerWheelEntryStart w n cb timeout now).current = w.current := rfl

theorem entry_timerWheelEntrySetTimeout (w : TimerWheel ε κ) (n : ε) (timeout : Nat) :
    (timerWheelEntrySetTimeout w n timeout).entries n =
      if timeout ≥ maxTimerSlots then w.entries n else { w.entries n with timeout := timeout } := by
  unfold timerWheelEntrySetTimeout
  split <;> simp

/-! ### The roll -/

variable (fire : κ → ε → TimerWheel ε κ → TimerWheel ε κ)

/-- The `while` loop of `timer_wheel_roll` on the slot `slot`: unlink the first entry and call
its callback until the slot is empty. The entries in the order they fired. -/
def drainSlot (slot : Nat) : Nat → TimerWheel ε κ → Option (List ε × TimerWheel ε κ)
  | 0, _ => none
  | fuel + 1, w =>
    match w.slots slot with
    | [] => some ([], w)
    | itr :: _ =>
      match (w.entries itr).callback with
      -- a call through `NULL`
      | none => none
      | some fn =>
        (drainSlot slot fuel (fire fn itr (timerWheelEntryRemove w itr))).map
          fun r => (itr :: r.1, r.2)

/-- The `for` loop of `timer_wheel_roll`: `steps` slots from the time `s`. -/
def rollSlots (fuel : Nat) : Nat → Nat → TimerWheel ε κ → Option (List ε × TimerWheel ε κ)
  | 0, _, w => some ([], w)
  | steps + 1, s, w =>
    match drainSlot fire (s % maxTimerSlots) fuel w with
    | none => none
    | some (first, w) => (rollSlots fuel steps (s + 1) w).map fun r => (first ++ r.1, r.2)

/-- `timer_wheel_roll`: the count it returns, with the entries fired. -/
def timerWheelRoll (fuel : Nat) (w : TimerWheel ε κ) (now : Nat) :
    Option (Nat × List ε × TimerWheel ε κ) :=
  if now < w.current then some (0, [], w)
  else
    let m := min now ((w.current + maxTimerSlots) % 2 ^ 32)
    match rollSlots fire fuel (m - w.current) w.current w with
    | none => none
    | some (fired, w') => some (fired.length, fired, { w' with current := now })

variable {fire}

theorem drainSlot_nil {w : TimerWheel ε κ} {slot : Nat} (empty : w.slots slot = []) (fuel : Nat) :
    drainSlot fire slot (fuel + 1) w = some ([], w) := by
  simp [drainSlot, empty]

theorem rollSlots_of_drain {fuel steps s : Nat} {w w' : TimerWheel ε κ} {first : List ε}
    (drained : drainSlot fire (s % maxTimerSlots) fuel w = some (first, w')) :
    rollSlots fire fuel (steps + 1) s w =
      (rollSlots fire fuel steps (s + 1) w').map fun r => (first ++ r.1, r.2) := by
  simp only [rollSlots, drained]

theorem rollSlots_of_drain_none {fuel steps s : Nat} {w : TimerWheel ε κ}
    (drained : drainSlot fire (s % maxTimerSlots) fuel w = none) :
    rollSlots fire fuel (steps + 1) s w = none := by
  simp only [rollSlots, drained]

theorem timerWheelRoll_eq (fuel : Nat) {w : TimerWheel ε κ} {now : Nat} (later : w.current ≤ now) :
    timerWheelRoll fire fuel w now =
      (rollSlots fire fuel (min now ((w.current + maxTimerSlots) % 2 ^ 32) - w.current) w.current
        w).map fun r => (r.1.length, r.1, { r.2 with current := now }) := by
  unfold timerWheelRoll
  rw [if_neg (Nat.not_lt.mpr later)]
  dsimp only
  cases rollSlots fire fuel (min now ((w.current + maxTimerSlots) % 2 ^ 32) - w.current) w.current w
    <;> rfl

end ops

/-- `get_expire_at`: the time of the entry's slot, read from `now`'s slot forward. -/
def getExpireAt (e : TimerEntry κ) (now : Nat) : Nat :=
  let slot := now % maxTimerSlots
  if e.callback.isNone || e.expireSlot ≥ slot then (now + e.expireSlot - slot) % 2 ^ 32
  else (now + e.expireSlot + maxTimerSlots - slot) % 2 ^ 32

/-- `timer_wheel_entry_get_idle`: `uint32` differences, read as a `uint16`. -/
def timerWheelEntryGetIdle (e : TimerEntry κ) (now : Nat) : Nat :=
  (now + 2 ^ 32 - (getExpireAt e now + 2 ^ 32 - e.timeout) % 2 ^ 32) % 2 ^ 32 % 2 ^ 16

def timerWheelEntryGetLife (e : TimerEntry κ) (now : Nat) : Nat :=
  (getExpireAt e now + 2 ^ 32 - now) % 2 ^ 32 % 2 ^ 16

end MicroSegment.Dp
