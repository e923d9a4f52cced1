import Mathlib

/-!
# The timer wheel of the Go services (`share/utils/timer_wheel.go`)

`scheduleTimeOut` puts a task into the slot `relativeIndex` slots after the cursor with the number
of whole rounds of its delay, and each tick of `Start` moves the cursor on and fetches the slot
under it: a timeout with no rounds left expires, any other loses a round. The slots are one list
of keyed timeouts here, each with its slot in `index`; the slot `i` of the source is the part of
the list with `index = i`. Durations are nanoseconds.

How many ticks a timeout still waits is `due`: the ticks until the cursor first reaches its slot,
1 to 3600, plus a whole round for each round left. Every tick lowers it by one and the tick that
finds it at 1 expires the timeout (`tick_due`), so a task fires exactly on the `due`-th tick after
it was scheduled (`addTask_fires`). A delay that is a whole number of rounds puts the task in the
slot under the cursor, which the cursor reaches only after a full round: it fires a round late.
-/

namespace MicroSegment.Share

/-- `default_tick_duration`, one second. -/
def defaultTickDuration : Int := 1000000000

def defaultWheelCount : Nat := 3600

/-- `WheelTimeOut`, without the task it runs. -/
structure WheelTimeOut where
  delay : Int
  index : Nat
  rounds : Int
  deriving DecidableEq, Repr

/-- `TimerWheel`: the timeouts of every slot, under their task ids. -/
structure TimerWheel where
  tickDuration : Int
  roundDuration : Int
  wheelCount : Nat
  wheelCursor : Nat
  items : List (Nat × WheelTimeOut)

def newTimerWheel : TimerWheel :=
  ⟨defaultTickDuration, defaultTickDuration * defaultWheelCount, defaultWheelCount, 0, []⟩

/-- `scheduleTimeOut`, with `key` the id `GetGuid` made. The delay is positive, so Go's truncating
`%` and `/` are Lean's. -/
def TimerWheel.scheduleTimeOut (t : TimerWheel) (key : Nat) (delay : Int) : TimerWheel :=
  let delay := if delay < t.tickDuration then t.tickDuration else delay
  let lastRoundDelay := delay % t.roundDuration
  let relativeIndex := lastRoundDelay / t.tickDuration
  let remainingRounds := delay / t.roundDuration
  let stopIndex := t.wheelCursor + relativeIndex.toNat
  let stopIndex := if stopIndex ≥ t.wheelCount then stopIndex - t.wheelCount else stopIndex
  { t with items := t.items ++ [(key, ⟨delay, stopIndex, remainingRounds⟩)] }

def TimerWheel.addTask (t : TimerWheel) (key : Nat) (delay : Int) : Except String TimerWheel :=
  if delay ≤ 0 then .error "delay Must be greater than zero"
  else .ok (t.scheduleTimeOut key delay)

def TimerWheel.removeTask (t : TimerWheel) (key : Nat) : TimerWheel :=
  { t with items := t.items.filter fun e => e.1 != key }

def fetchOne (slot : Nat) (e : Nat × WheelTimeOut) : Option (Nat × WheelTimeOut) :=
  if e.2.index = slot then
    if e.2.rounds ≤ 0 then none else some (e.1, { e.2 with rounds := e.2.rounds - 1 })
  else some e

/-- `fetchExpiredTimeouts` on the slot `slot`: the ids of the timeouts that expire, and the
timeouts left. -/
def fetchExpiredTimeouts (slot : Nat) (items : List (Nat × WheelTimeOut)) :
    List Nat × List (Nat × WheelTimeOut) :=
  ((items.filter fun e => e.2.index = slot ∧ e.2.rounds ≤ 0).map (·.1), items.filterMap (fetchOne slot))

/-- A tick of the loop in `Start`: the cursor moves on, and the slot under it is fetched. -/
def TimerWheel.tick (t : TimerWheel) : TimerWheel × List Nat :=
  let cursor := if t.wheelCursor + 1 = t.wheelCount then 0 else t.wheelCursor + 1
  let (expired, items) := fetchExpiredTimeouts cursor t.items
  ({ t with wheelCursor := cursor, items := items }, expired)

def TimerWheel.ticks : Nat → TimerWheel → TimerWheel
  | 0, t => t
  | n + 1, t => TimerWheel.ticks n t.tick.1

def TimerWheel.expiredAt (t : TimerWheel) (n : Nat) : List Nat := (t.ticks n).tick.2

theorem TimerWheel.tick_wheelCursor (t : TimerWheel) :
    t.tick.1.wheelCursor = if t.wheelCursor + 1 = t.wheelCount then 0 else t.wheelCursor + 1 := rfl

theorem TimerWheel.tick_items (t : TimerWheel) :
    t.tick.1.items = (fetchExpiredTimeouts t.tick.1.wheelCursor t.items).2 := rfl

theorem TimerWheel.tick_expired (t : TimerWheel) :
    t.tick.2 = (fetchExpiredTimeouts t.tick.1.wheelCursor t.items).1 := rfl

/-! ### How long a timeout waits -/

/-- A wheel as `NewTimerWheel` makes it, with the cursor on a slot. -/
structure TimerWheel.Made (t : TimerWheel) : Prop where
  tick_eq : t.tickDuration = defaultTickDuration
  round_eq : t.roundDuration = defaultTickDuration * defaultWheelCount
  count_eq : t.wheelCount = defaultWheelCount
  cursor_lt : t.wheelCursor < defaultWheelCount

def due (cursor : Nat) (tmo : WheelTimeOut) : Int :=
  (((tmo.index + defaultWheelCount - cursor - 1) % defaultWheelCount + 1 : Nat) : Int) +
    defaultWheelCount * tmo.rounds

/-- The timeout of `key`, the only one under that id, on a slot and with no negative round. -/
structure Pending (t : TimerWheel) (key : Nat) (tmo : WheelTimeOut) : Prop where
  only : t.items.filter (fun e => e.1 == key) = [(key, tmo)]
  slot : tmo.index < defaultWheelCount
  rounds : 0 ≤ tmo.rounds

theorem newTimerWheel_made : newTimerWheel.Made := ⟨rfl, rfl, rfl, by decide⟩

theorem TimerWheel.Made.tick {t : TimerWheel} (made : t.Made) : t.tick.1.Made where
  tick_eq := made.tick_eq
  round_eq := made.round_eq
  count_eq := made.count_eq
  cursor_lt := by
    show (if t.wheelCursor + 1 = t.wheelCount then 0 else t.wheelCursor + 1) < defaultWheelCount
    have := made.cursor_lt
    rw [made.count_eq]
    split <;> omega

theorem TimerWheel.Made.ticks {t : TimerWheel} (made : t.Made) : ∀ n, (t.ticks n).Made
  | 0 => made
  | n + 1 => made.tick.ticks n

theorem filter_fetch (slot key : Nat) (items : List (Nat × WheelTimeOut)) :
    (fetchExpiredTimeouts slot items).2.filter (fun e => e.1 == key) =
      (fetchExpiredTimeouts slot (items.filter fun e => e.1 == key)).2 := by
  have keeps : ∀ e e', fetchOne slot e = some e' → e'.1 = e.1 := by
    intro e e' kept
    unfold fetchOne at kept
    split at kept
    · split at kept
      · cases kept
      · rw [← Option.some.inj kept]
    · rw [← Option.some.inj kept]
  unfold fetchExpiredTimeouts
  rw [List.filter_filterMap, List.filterMap_filter]
  apply List.filterMap_congr
  intro e _
  cases kept : fetchOne slot e with
  | none => simp
  | some e' => simp [Option.filter, keeps e e' kept]

theorem mem_fetch_expired {slot key : Nat} {items : List (Nat × WheelTimeOut)} :
    key ∈ (fetchExpiredTimeouts slot items).1 ↔
      ∃ e ∈ items.filter (fun e => e.1 == key), e.2.index = slot ∧ e.2.rounds ≤ 0 := by
  unfold fetchExpiredTimeouts
  simp only [List.mem_map, List.mem_filter, decide_eq_true_eq, beq_iff_eq]
  constructor
  · rintro ⟨e, ⟨mem, at_slot⟩, rfl⟩
    exact ⟨e, ⟨mem, rfl⟩, at_slot⟩
  · rintro ⟨e, ⟨mem, rfl⟩, at_slot⟩
    exact ⟨e, ⟨mem, at_slot⟩, rfl⟩

theorem tick_gone {t : TimerWheel} {key : Nat} (gone : t.items.filter (fun e => e.1 == key) = []) :
    t.tick.1.items.filter (fun e => e.1 == key) = [] ∧ key ∉ t.tick.2 := by
  constructor
  · show (fetchExpiredTimeouts _ t.items).2.filter _ = []
    rw [filter_fetch, gone]
    rfl
  · show key ∉ (fetchExpiredTimeouts _ t.items).1
    rw [mem_fetch_expired, gone]
    exact fun ⟨_, mem, _⟩ => absurd mem List.not_mem_nil

theorem expiredAt_gone {t : TimerWheel} {key : Nat}
    (gone : t.items.filter (fun e => e.1 == key) = []) : ∀ n, key ∉ t.expiredAt n := by
  intro n
  induction n generalizing t with
  | zero => exact (tick_gone gone).2
  | succ n ih => exact ih (tick_gone gone).1

/-- A tick lowers `due` by one, and the tick that finds it at 1 expires the timeout. -/
theorem tick_due {t : TimerWheel} {key : Nat} {tmo : WheelTimeOut} (made : t.Made)
    (pending : Pending t key tmo) :
    (due t.wheelCursor tmo = 1 ∧ key ∈ t.tick.2 ∧
        t.tick.1.items.filter (fun e => e.1 == key) = []) ∨
      (due t.wheelCursor tmo ≠ 1 ∧ key ∉ t.tick.2 ∧
        ∃ tmo', Pending t.tick.1 key tmo' ∧ due t.tick.1.wheelCursor tmo' = due t.wheelCursor tmo - 1) := by
  have cursor := made.cursor_lt
  have slot := pending.slot
  have rounds := pending.rounds
  have next := t.tick_wheelCursor
  rw [made.count_eq] at next
  have expired : key ∈ t.tick.2 ↔ tmo.index = t.tick.1.wheelCursor ∧ tmo.rounds ≤ 0 := by
    rw [t.tick_expired, mem_fetch_expired, pending.only]
    simp only [List.mem_singleton, exists_eq_left]
  have left : t.tick.1.items.filter (fun e => e.1 == key) =
      (fetchOne t.tick.1.wheelCursor (key, tmo)).toList := by
    rw [t.tick_items, filter_fetch, pending.only]
    unfold fetchExpiredTimeouts
    rw [List.filterMap_cons, List.filterMap_nil]
    cases fetchOne _ (key, tmo) <;> rfl
  -- only the cursor after the tick matters from here
  generalize t.tick.1.wheelCursor = c at next expired left ⊢
  unfold defaultWheelCount at cursor slot next
  unfold due defaultWheelCount
  by_cases reached : tmo.index = c
  · by_cases last : tmo.rounds ≤ 0
    · -- no round left: it expires now
      refine .inl ⟨?_, expired.mpr ⟨reached, last⟩, ?_⟩
      · have none : tmo.rounds = 0 := by omega
        rw [none]
        split at next <;> omega
      · rw [left]
        unfold fetchOne
        rw [if_pos reached, if_pos last]
        rfl
    · -- a round left: it waits another full round from here
      refine .inr ⟨?_, fun mem => last (expired.mp mem).2, { tmo with rounds := tmo.rounds - 1 },
        ⟨?_, slot, by simp only; omega⟩, ?_⟩
      · split at next <;> omega
      · rw [left]
        unfold fetchOne
        rw [if_pos reached, if_neg last]
        rfl
      · simp only
        split at next <;> omega
  · -- the cursor moves one slot closer
    refine .inr ⟨?_, fun mem => reached (expired.mp mem).1, tmo, ⟨?_, slot, rounds⟩, ?_⟩
    · split at next <;> omega
    · rw [left]
      unfold fetchOne
      rw [if_neg reached]
      rfl
    · split at next <;> omega

theorem expiredAt_pending {key : Nat} :
    ∀ (n : Nat) {t : TimerWheel} {tmo : WheelTimeOut}, t.Made → Pending t key tmo →
      (key ∈ t.expiredAt n ↔ (n : Int) + 1 = due t.wheelCursor tmo)
  | 0, t, tmo, made, pending => by
    rcases tick_due made pending with ⟨one, mem, -⟩ | ⟨other, absent, -⟩
    · exact ⟨fun _ => by rw [one]; rfl, fun _ => mem⟩
    · exact ⟨fun mem => absurd mem absent, fun one => absurd (by rw [← one]; rfl) other⟩
  | n + 1, t, tmo, made, pending => by
    show key ∈ t.tick.1.expiredAt n ↔ _
    rcases tick_due made pending with ⟨one, -, gone⟩ | ⟨-, -, tmo', pending', lower⟩
    · refine ⟨fun mem => absurd mem (expiredAt_gone gone n), fun at_due => ?_⟩
      rw [one] at at_due
      omega
    · rw [expiredAt_pending n made.tick pending', lower]
      push_cast
      omega

theorem scheduleTimeOut_pending {t : TimerWheel} (made : t.Made) {key : Nat}
    (fresh : ∀ e ∈ t.items, e.1 ≠ key) {s : Nat} (pos : 1 ≤ s) :
    ∃ tmo, Pending (t.scheduleTimeOut key (s * defaultTickDuration)) key tmo ∧
      due t.wheelCursor tmo = if s % 3600 = 0 then (s : Int) + 3600 else s := by
  have cursor := made.cursor_lt
  unfold defaultWheelCount at cursor
  -- the delay is kept, its slot is `s % 3600` on, and it has `s / 3600` rounds
  have kept : ¬(s : Int) * defaultTickDuration < t.tickDuration := by
    rw [made.tick_eq]
    unfold defaultTickDuration
    omega
  have relative : ((s * defaultTickDuration) % t.roundDuration / t.tickDuration).toNat = s % 3600 := by
    rw [made.tick_eq, made.round_eq]
    unfold defaultTickDuration defaultWheelCount
    omega
  have whole : (s * defaultTickDuration) / t.roundDuration = ((s / 3600 : Nat) : Int) := by
    rw [made.round_eq]
    unfold defaultTickDuration defaultWheelCount
    omega
  have scheduled : t.scheduleTimeOut key (s * defaultTickDuration) =
      { t with items := t.items ++ [(key, ⟨s * defaultTickDuration,
        if t.wheelCursor + s % 3600 ≥ 3600 then t.wheelCursor + s % 3600 - 3600
        else t.wheelCursor + s % 3600, (s / 3600 : Nat)⟩)] } := by
    unfold TimerWheel.scheduleTimeOut
    dsimp only
    rw [if_neg kept, relative, whole, made.count_eq]
    rfl
  rw [scheduled]
  clear kept relative whole scheduled
  refine ⟨⟨s * defaultTickDuration,
    if t.wheelCursor + s % 3600 ≥ 3600 then t.wheelCursor + s % 3600 - 3600
    else t.wheelCursor + s % 3600, (s / 3600 : Nat)⟩, ⟨?_, ?_, ?_⟩, ?_⟩
  · show (t.items ++ _).filter _ = _
    rw [List.filter_append, List.filter_eq_nil_iff.mpr (fun e mem => by simpa using fresh e mem)]
    simp
  · unfold defaultWheelCount
    dsimp only
    split <;> omega
  · show (0 : Int) ≤ ((s / 3600 : Nat) : Int)
    omega
  · unfold due defaultWheelCount
    dsimp only
    split <;> split <;> omega

/-- `AddTask` with a delay of `s ≥ 1` whole seconds, on a wheel that `NewTimerWheel` made and
that has run any number of ticks: the task fires on the `s`-th tick and no other, unless `s` is a
multiple of the 3600-slot round, when it fires on the `(s + 3600)`-th. -/
theorem addTask_fires {t : TimerWheel} (made : t.Made) {key : Nat}
    (fresh : ∀ e ∈ t.items, e.1 ≠ key) {s : Nat} (pos : 1 ≤ s) :
    ∃ t', t.addTask key (s * defaultTickDuration) = .ok t' ∧
      ∀ n, key ∈ t'.expiredAt n ↔ n + 1 = if s % 3600 = 0 then s + 3600 else s := by
  obtain ⟨tmo, pending, at_due⟩ := scheduleTimeOut_pending made fresh pos
  refine ⟨_, if_neg (by unfold defaultTickDuration; omega), fun n => ?_⟩
  have made' : (t.scheduleTimeOut key (s * defaultTickDuration)).Made :=
    ⟨made.tick_eq, made.round_eq, made.count_eq, made.cursor_lt⟩
  rw [expiredAt_pending n made' pending]
  have same : (t.scheduleTimeOut key (s * defaultTickDuration)).wheelCursor = t.wheelCursor := rfl
  rw [same, at_due]
  split <;> omega

/-- A task of one round's delay, 3600 seconds, added to a new wheel fires on tick 7200, a round
late, and not on tick 3600. -/
theorem addTask_round_late :
    ∃ t', newTimerWheel.addTask 0 (3600 * defaultTickDuration) = .ok t' ∧
      ∀ n, 0 ∈ t'.expiredAt n ↔ n + 1 = 7200 := by
  obtain ⟨t', added, fires⟩ :=
    @addTask_fires newTimerWheel newTimerWheel_made 0 nofun 3600 (by decide)
  exact ⟨t', added, fun n => by rw [fires n]; rfl⟩

end MicroSegment.Share
