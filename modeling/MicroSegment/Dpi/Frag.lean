import MicroSegment.Dp.Asm

/-!
# IP fragment tracking (`dpi/dpi_frag.c`)

A tracker holds the fragments of one datagram. `dpi_ip_defrag` and `dpi_ipv6_defrag` find it in
`th_ip4frag_map` or `th_ip6frag_map`, or allocate one, add it to the map and start its timer;
they hold the fragment and assemble the datagram once the first and the last fragment are in.
An assembled tracker is handed to the packet, and a tracker whose timer fires is released.

The trackers are kept as the list of all that were ever allocated, so that an index stands for an
address that stays meaningful after it is freed, and each map as the list of the trackers linked
into it. `cds_lfht_del` flags a node removed, which lookups skip, and unlinks it from the table it
is given.
-/

namespace MicroSegment.Dpi

open MicroSegment.Dp

def dpiFragTimeout : Nat := 10

def dpiMaxPktLen : Nat := 65536

def ipOffmask : Nat := 0x1fff

def ipMf : Nat := 0x2000

def ip6fOffMask : Nat := 0xf8ff

def ip6fMoreFrag : Nat := 0x0100

/-- `th_ip4frag_map` and `th_ip6frag_map`. -/
inductive FragMap
  | ip4
  | ip6
  deriving DecidableEq, Repr

inductive TracStatus
  | live
  | assembled
  | released
  deriving DecidableEq, Repr

/-- A fragment as the defrag functions read it: `frag_off` in host order, the payload length
`p->len - p->l4`, and the payload, `p->pkt[p->l4 + k]`. -/
structure Frag where
  fragOff : Nat
  len : Nat
  payload : Nat → UInt8
  fragOff_lt : fragOff < 2 ^ 16
  len_le : len ≤ dpiMaxPktLen

/-- `ip4frag_trac_t` and `ip6frag_trac_t`: `family` is the type, which decides the map
`dpi_ip_defrag` or `dpi_ipv6_defrag` added it to; `key` stands for the fields the match function
compares; `expires` is the tick its timer entry fires after; `removed` is the flag
`cds_lfht_del` sets on its hash node. -/
structure FragTrac where
  family : FragMap
  key : Nat
  length : Nat
  first : Bool
  last : Bool
  frags : Asm
  expires : Nat
  status : TracStatus
  removed : Bool

/-- The trackers ever allocated, by address, and the two maps. -/
structure Defrag where
  tracs : List FragTrac
  ip4Map : List Nat
  ip6Map : List Nat

def Defrag.init : Defrag := ⟨[], [], []⟩

def Defrag.map (s : Defrag) : FragMap → List Nat
  | .ip4 => s.ip4Map
  | .ip6 => s.ip6Map

def Defrag.setMap (s : Defrag) : FragMap → List Nat → Defrag
  | .ip4, m => { s with ip4Map := m }
  | .ip6, m => { s with ip6Map := m }

def Defrag.modifyTrac (s : Defrag) (id : Nat) (f : FragTrac → FragTrac) : Defrag :=
  { s with tracs := s.tracs.modify id f }

def rcuMapAdd (m : FragMap) (id : Nat) (s : Defrag) : Defrag := s.setMap m (s.map m ++ [id])

/-- `rcu_map_del`: `cds_lfht_del` flags the node removed and unlinks it from the table given. -/
def rcuMapDel (m : FragMap) (id : Nat) (s : Defrag) : Defrag :=
  (s.setMap m ((s.map m).erase id)).modifyTrac id fun t => { t with removed := true }

/-- `rcu_map_lookup`: the first node linked in the table with the key and not flagged removed. -/
def rcuMapLookup (m : FragMap) (key : Nat) (s : Defrag) : Option Nat :=
  (s.map m).find? fun id =>
    match s.tracs[id]? with
    | some t => t.key == key && !t.removed
    | none => false

/-- `u32_overlap`: `[u1, u2)` and `[u3, u4)` overlap. -/
def u32Overlap (u1 u2 u3 u4 : UInt32) : Bool := u1 < u4 && u2 > u3

/-- `asm_foreach` with `teardrop_check`: whether `[seq, seq + len)` overlaps a held clip. -/
def teardropCheck (frags : Asm) (seq len : UInt32) : Bool :=
  frags.clips.foldl (fun overlap clip => overlap || u32Overlap seq (seq + len) clip.seq clip.clipEnd)
    false

def fragInsert (t : FragTrac) (seq len : UInt32) (payload : Nat → UInt8) : FragTrac :=
  match asmInsert t.frags ⟨seq, len.toNat % 2 ^ 24, payload, Nat.mod_lt _ (by decide)⟩ with
  | some frags => { t with frags := frags }
  | none => t

/-- The length bookkeeping and the save that end `ipfrag_hold` and `ip6frag_hold`: a fragment
with more to come may extend the length until the last one is in, and the last one fixes it. -/
def fragSave (t : FragTrac) (more : Bool) (seq len : UInt32) (payload : Nat → UInt8) : FragTrac :=
  let e := seq + len
  if more then
    if e.toNat > t.length then
      if t.last then t else fragInsert { t with length := e.toNat % 2 ^ 30 } seq len payload
    else fragInsert t seq len payload
  else if e.toNat < t.length ∨ (t.last ∧ e.toNat ≠ t.length) then t
  else fragInsert { t with last := true, length := e.toNat % 2 ^ 30 } seq len payload

/-- `ipfrag_hold`: an empty fragment is ignored and one that overlaps a held clip is dropped as a
teardrop attack. -/
def ipfragHold (t : FragTrac) (f : Frag) : FragTrac :=
  let seq : UInt32 := UInt32.ofNat ((f.fragOff &&& ipOffmask) <<< 3)
  let len : UInt32 := UInt32.ofNat f.len
  if len = 0 then t
  else if t.frags.clips.length > 0 ∧ teardropCheck t.frags seq len then t
  else
    let t := if seq = 0 then { t with first := true } else t
    fragSave t (f.fragOff &&& ipMf ≠ 0) seq len f.payload

/-- `ip6frag_hold`: no check for an empty or an overlapping fragment. -/
def ip6fragHold (t : FragTrac) (f : Frag) : FragTrac :=
  let seq : UInt32 := UInt32.ofNat (f.fragOff &&& ip6fOffMask)
  let len : UInt32 := UInt32.ofNat f.len
  let t := if seq = 0 then { t with first := true } else t
  fragSave t (f.fragOff &&& ip6fMoreFrag ≠ 0) seq len f.payload

/-- What an assembly leaves for the packet: the payload's length and bytes. -/
structure Assembled where
  len : Nat
  bytes : Nat → UInt8

/-- `ipfrag_construct` and `ip6frag_construct`: the tracker's clips assembled into a target of
`consLen` bytes up to `trac->length - 1`; on `ASM_OK` the tracker is deleted from `delMap`, its
timer stopped and it is handed to the packet. -/
def fragConstruct (delMap : FragMap) (consLen : Nat) (id : Nat) (s : Defrag) :
    Defrag × Option Assembled :=
  match s.tracs[id]? with
  | none => (s, none)
  | some t =>
    let (ret, cons) := asmConstruct t.frags
      ⟨0, consLen % 2 ^ 24, fun _ => 0, Nat.mod_lt _ (by decide)⟩ (UInt32.ofNat t.length - 1)
    if ret = .ok then
      ((rcuMapDel delMap id s).modifyTrac id fun t => { t with status := .assembled },
        some ⟨cons.len, cons.bytes⟩)
    else (s, none)

def ipfragConstruct (l4 : Nat) (id : Nat) (s : Defrag) : Defrag × Option Assembled :=
  fragConstruct .ip4 (dpiMaxPktLen - l4) id s

/-- `ip6frag_construct` deletes the tracker from `th_ip4frag_map`, as the source does. -/
def ip6fragConstruct (l3 : Nat) (id : Nat) (s : Defrag) : Defrag × Option Assembled :=
  fragConstruct .ip4 (dpiMaxPktLen - l3 - 40) id s

/-- `ipfrag_release` and `ip6frag_release`, the timer callback: the tracker is deleted from
`delMap`, its clips destroyed and it is freed. -/
def fragRelease (delMap : FragMap) (id : Nat) (s : Defrag) : Defrag :=
  (rcuMapDel delMap id s).modifyTrac id fun t => { t with frags := ⟨[]⟩, status := .released }

def ipfragRelease (id : Nat) (s : Defrag) : Defrag := fragRelease .ip4 id s

/-- `ip6frag_release` deletes the tracker from `th_ip4frag_map`, as the source does. -/
def ip6fragRelease (id : Nat) (s : Defrag) : Defrag := fragRelease .ip4 id s

def newTrac (family : FragMap) (key tick : Nat) : FragTrac :=
  ⟨family, key, 0, false, false, ⟨[]⟩, tick + dpiFragTimeout, .live, false⟩

def addTrac (m : FragMap) (key tick : Nat) (s : Defrag) : Defrag × Nat :=
  (rcuMapAdd m s.tracs.length { s with tracs := s.tracs ++ [newTrac m key tick] }, s.tracs.length)

/-- `timer_wheel_entry_refresh` of the tracker's timer. -/
def refreshTrac (tick id : Nat) (s : Defrag) : Defrag :=
  s.modifyTrac id fun t => { t with expires := tick + dpiFragTimeout }

/-- Assemble once the first and the last fragment are in: the return value (0 on an assembly,
1 when `asm_construct` did not assemble, -1 before both are in) and what was assembled. -/
def constructIfComplete (construct : Nat → Defrag → Defrag × Option Assembled) (id : Nat)
    (s : Defrag) : Defrag × Int × Option Assembled :=
  match s.tracs[id]? with
  | some t =>
    if t.first ∧ t.last then
      let (s, out) := construct id s
      (s, if out.isSome then 0 else 1, out)
    else (s, -1, none)
  | none => (s, -1, none)

/-- `dpi_ip_defrag` for a fragment with key `key` at tick `tick`. -/
def dpiIpDefrag (key : Nat) (f : Frag) (l4 tick : Nat) (s : Defrag) : Defrag × Int × Option Assembled :=
  let (s, id) := match rcuMapLookup .ip4 key s with
    | some id => (s, id)
    | none => addTrac .ip4 key tick s
  let s := refreshTrac tick id s
  let s := s.modifyTrac id (ipfragHold · f)
  constructIfComplete (ipfragConstruct l4) id s

/-- `dpi_ipv6_defrag`: a fragment header at offset 0 without more fragments and without a
tracker is a pseudo header, passed on as it is. -/
def dpiIpv6Defrag (key : Nat) (f : Frag) (l3 tick : Nat) (s : Defrag) :
    Defrag × Int × Option Assembled :=
  match rcuMapLookup .ip6 key s with
  | none =>
    if f.fragOff &&& ip6fOffMask = 0 ∧ f.fragOff &&& ip6fMoreFrag = 0 then (s, 0, none)
    else
      let (s, id) := addTrac .ip6 key tick s
      let s := refreshTrac tick id s
      let s := s.modifyTrac id (ip6fragHold · f)
      constructIfComplete (ip6fragConstruct l3) id s
  | some id =>
    let s := refreshTrac tick id s
    let s := s.modifyTrac id (ip6fragHold · f)
    constructIfComplete (ip6fragConstruct l3) id s

def fragTimerCallback : FragMap → Nat → Defrag → Defrag
  | .ip4 => ipfragRelease
  | .ip6 => ip6fragRelease

def fragTimerRoll (now : Nat) (s : Defrag) : Defrag :=
  (List.range s.tracs.length).foldl
    (fun s id =>
      match s.tracs[id]? with
      | some t => if t.status = .live ∧ t.expires < now then fragTimerCallback t.family id s else s
      | none => s)
    s

/-- What the data path feeds the fragment code: fragments with their key, header offset and
tick, and timer rolls. -/
inductive DefragEvent
  | ip4 (key : Nat) (f : Frag) (l4 tick : Nat)
  | ip6 (key : Nat) (f : Frag) (l3 tick : Nat)
  | roll (now : Nat)

def defragStep (s : Defrag) : DefragEvent → Defrag
  | .ip4 key f l4 tick => (dpiIpDefrag key f l4 tick s).1
  | .ip6 key f l3 tick => (dpiIpv6Defrag key f l3 tick s).1
  | .roll now => fragTimerRoll now s

def defragRun (events : List DefragEvent) : Defrag := events.foldl defragStep Defrag.init

/-! ### Which trackers the maps hold -/

/-- The trackers linked in each map: in `th_ip4frag_map` exactly the live IPv4 trackers, once
each, and in `th_ip6frag_map` every IPv6 tracker ever allocated. -/
structure Linked (s : Defrag) : Prop where
  ip4_nodup : s.ip4Map.Nodup
  ip4 : ∀ id, id ∈ s.ip4Map ↔ ∃ t, s.tracs[id]? = some t ∧ t.family = .ip4 ∧ t.status = .live
  ip6 : ∀ id, id ∈ s.ip6Map ↔ ∃ t, s.tracs[id]? = some t ∧ t.family = .ip6

theorem linked_init : Linked Defrag.init :=
  ⟨List.nodup_nil, fun _ => by simp [Defrag.init], fun _ => by simp [Defrag.init]⟩

theorem exists_modify_iff {tracs : List FragTrac} {id j : Nat} {f : FragTrac → FragTrac}
    {P : FragTrac → Prop} (keeps : ∀ t, P (f t) ↔ P t) :
    (∃ t, (tracs.modify id f)[j]? = some t ∧ P t) ↔ ∃ t, tracs[j]? = some t ∧ P t := by
  rw [List.getElem?_modify]
  by_cases same : id = j
  · cases tracs[j]? <;> simp [same, keeps]
  · simp [same]

theorem Linked.modifyTrac {s : Defrag} (inv : Linked s) (id : Nat) {f : FragTrac → FragTrac}
    (family : ∀ t, (f t).family = t.family) (status : ∀ t, (f t).status = t.status) :
    Linked (s.modifyTrac id f) := by
  refine ⟨inv.ip4_nodup, fun j => ?_, fun j => ?_⟩
  · show j ∈ s.ip4Map ↔ ∃ t, (s.tracs.modify id f)[j]? = some t ∧ t.family = .ip4 ∧ t.status = .live
    rw [inv.ip4 j]
    exact (exists_modify_iff fun t => by rw [family, status]).symm
  · show j ∈ s.ip6Map ↔ ∃ t, (s.tracs.modify id f)[j]? = some t ∧ t.family = .ip6
    rw [inv.ip6 j]
    exact (exists_modify_iff fun t => by rw [family]).symm

theorem Linked.retire {s : Defrag} (inv : Linked s) (id : Nat) {g : FragTrac → FragTrac}
    (family : ∀ t, (g t).family = t.family) (dead : ∀ t, (g t).status ≠ .live) :
    Linked ((rcuMapDel .ip4 id s).modifyTrac id g) := by
  have tracs : ((rcuMapDel .ip4 id s).modifyTrac id g).tracs =
      (s.tracs.modify id fun t => { t with removed := true }).modify id g := rfl
  refine ⟨inv.ip4_nodup.erase id, fun j => ?_, fun j => ?_⟩
  · show j ∈ s.ip4Map.erase id ↔ _
    rw [inv.ip4_nodup.mem_erase_iff, inv.ip4 j, tracs]
    by_cases same : id = j
    · subst same
      simp [dead]
    · simp [same, Ne.symm same]
  · show j ∈ s.ip6Map ↔ _
    rw [inv.ip6 j, tracs, exists_modify_iff fun t => by rw [family],
      exists_modify_iff (f := fun t : FragTrac => { t with removed := true }) fun t => Iff.rfl]

theorem Linked.construct {s : Defrag} (inv : Linked s) (consLen id : Nat) :
    Linked (fragConstruct .ip4 consLen id s).1 := by
  unfold fragConstruct
  split
  · exact inv
  · dsimp only
    split
    · exact inv.retire id (fun _ => rfl) (fun _ => by simp)
    · exact inv

theorem Linked.release {s : Defrag} (inv : Linked s) (id : Nat) :
    Linked (fragRelease .ip4 id s) :=
  inv.retire id (fun _ => rfl) (fun _ => by simp)

theorem getElem?_append_singleton (l : List FragTrac) (a : FragTrac) (j : Nat) :
    (l ++ [a])[j]? = if j < l.length then l[j]? else if j = l.length then some a else none := by
  by_cases lt : j < l.length
  · simp [lt, List.getElem?_append_left lt]
  · rw [List.getElem?_append_right (by omega)]
    by_cases same : j = l.length
    · simp [same]
    · rw [List.getElem?_eq_none (by simp only [List.length_singleton]; omega)]
      simp [lt, same]

theorem Linked.lt_length {s : Defrag} (inv : Linked s) {m : FragMap} {id : Nat}
    (mem : id ∈ s.map m) : id < s.tracs.length := by
  cases m
  · obtain ⟨t, found, _⟩ := (inv.ip4 id).mp mem
    exact (List.getElem?_eq_some_iff.mp found).1
  · obtain ⟨t, found, _⟩ := (inv.ip6 id).mp mem
    exact (List.getElem?_eq_some_iff.mp found).1

theorem Linked.add {s : Defrag} (inv : Linked s) (m : FragMap) (key tick : Nat) :
    Linked (addTrac m key tick s).1 := by
  have fresh : ∀ m', s.tracs.length ∉ s.map m' := fun m' mem =>
    Nat.lt_irrefl _ (inv.lt_length mem)
  have tracs (j : Nat) : (s.tracs ++ [newTrac m key tick])[j]? =
      if j < s.tracs.length then s.tracs[j]? else
        if j = s.tracs.length then some (newTrac m key tick) else none :=
    getElem?_append_singleton _ _ j
  cases m with
  | ip4 =>
    refine ⟨List.nodup_append.mpr ⟨inv.ip4_nodup, by simp, ?_⟩, fun j => ?_, fun j => ?_⟩
    · intro a mem b new same
      rw [List.mem_singleton.mp new] at same
      exact fresh .ip4 (same ▸ mem)
    · show j ∈ s.ip4Map ++ [s.tracs.length] ↔
        ∃ t, (s.tracs ++ [newTrac .ip4 key tick])[j]? = some t ∧ t.family = .ip4 ∧ t.status = .live
      rw [List.mem_append, List.mem_singleton, inv.ip4 j, tracs]
      by_cases lt : j < s.tracs.length
      · simp [lt, Nat.ne_of_lt lt]
      · by_cases same : j = s.tracs.length <;> simp [lt, same, newTrac]
    · show j ∈ s.ip6Map ↔ ∃ t, (s.tracs ++ [newTrac .ip4 key tick])[j]? = some t ∧ t.family = .ip6
      rw [inv.ip6 j, tracs]
      by_cases lt : j < s.tracs.length
      · simp [lt]
      · by_cases same : j = s.tracs.length <;> simp [lt, same, newTrac]
  | ip6 =>
    refine ⟨inv.ip4_nodup, fun j => ?_, fun j => ?_⟩
    · show j ∈ s.ip4Map ↔
        ∃ t, (s.tracs ++ [newTrac .ip6 key tick])[j]? = some t ∧ t.family = .ip4 ∧ t.status = .live
      rw [inv.ip4 j, tracs]
      by_cases lt : j < s.tracs.length
      · simp [lt]
      · by_cases same : j = s.tracs.length <;> simp [lt, same, newTrac]
    · show j ∈ s.ip6Map ++ [s.tracs.length] ↔
        ∃ t, (s.tracs ++ [newTrac .ip6 key tick])[j]? = some t ∧ t.family = .ip6
      rw [List.mem_append, List.mem_singleton, inv.ip6 j, tracs]
      by_cases lt : j < s.tracs.length
      · simp [lt, Nat.ne_of_lt lt]
      · by_cases same : j = s.tracs.length <;> simp [lt, same, newTrac]

theorem fragInsert_keeps (t : FragTrac) (seq len : UInt32) (payload : Nat → UInt8) :
    (fragInsert t seq len payload).family = t.family ∧
      (fragInsert t seq len payload).status = t.status := by
  unfold fragInsert
  split <;> exact ⟨rfl, rfl⟩

theorem fragSave_keeps (t : FragTrac) (more : Bool) (seq len : UInt32) (payload : Nat → UInt8) :
    (fragSave t more seq len payload).family = t.family ∧
      (fragSave t more seq len payload).status = t.status := by
  unfold fragSave
  dsimp only
  repeat' split
  all_goals first
    | exact ⟨rfl, rfl⟩
    | exact fragInsert_keeps _ _ _ _

theorem ipfragHold_keeps (t : FragTrac) (f : Frag) :
    (ipfragHold t f).family = t.family ∧ (ipfragHold t f).status = t.status := by
  unfold ipfragHold
  dsimp only
  split
  · exact ⟨rfl, rfl⟩
  split
  · exact ⟨rfl, rfl⟩
  split <;> exact fragSave_keeps _ _ _ _ _

theorem ip6fragHold_keeps (t : FragTrac) (f : Frag) :
    (ip6fragHold t f).family = t.family ∧ (ip6fragHold t f).status = t.status := by
  unfold ip6fragHold
  dsimp only
  split <;> exact fragSave_keeps _ _ _ _ _

theorem Linked.completeAt {s : Defrag} (inv : Linked s) (consLen id : Nat) :
    Linked (constructIfComplete (fragConstruct .ip4 consLen) id s).1 := by
  unfold constructIfComplete
  split
  · split
    · exact inv.construct consLen id
    · exact inv
  · exact inv

theorem Linked.holdAt {s : Defrag} (inv : Linked s) (tick id : Nat) {hold : FragTrac → FragTrac}
    (keeps : ∀ t, (hold t).family = t.family ∧ (hold t).status = t.status) :
    Linked ((refreshTrac tick id s).modifyTrac id hold) :=
  (inv.modifyTrac id (f := fun t => { t with expires := tick + dpiFragTimeout }) (fun _ => rfl)
    (fun _ => rfl)).modifyTrac id (fun t => (keeps t).1) (fun t => (keeps t).2)

theorem Linked.ip4Defrag {s : Defrag} (inv : Linked s) (key : Nat) (f : Frag) (l4 tick : Nat) :
    Linked (dpiIpDefrag key f l4 tick s).1 := by
  unfold dpiIpDefrag
  -- the tracker is the one the lookup found, or a new one
  have found : Linked (match rcuMapLookup .ip4 key s with
      | some id => (s, id)
      | none => addTrac .ip4 key tick s).1 := by
    split
    · exact inv
    · exact inv.add .ip4 key tick
  split
  next s' id pair =>
  rw [pair] at found
  exact (found.holdAt tick id fun t => ipfragHold_keeps t f).completeAt _ id

theorem Linked.ip6Defrag {s : Defrag} (inv : Linked s) (key : Nat) (f : Frag) (l3 tick : Nat) :
    Linked (dpiIpv6Defrag key f l3 tick s).1 := by
  unfold dpiIpv6Defrag
  split
  · split
    · exact inv
    · exact ((inv.add .ip6 key tick).holdAt tick _ fun t => ip6fragHold_keeps t f).completeAt _ _
  · next id _ =>
    exact (inv.holdAt tick id fun t => ip6fragHold_keeps t f).completeAt _ id

theorem Linked.timerRoll {s : Defrag} (inv : Linked s) (now : Nat) :
    Linked (fragTimerRoll now s) := by
  unfold fragTimerRoll
  generalize List.range s.tracs.length = ids
  induction ids generalizing s with
  | nil => exact inv
  | cons id ids ih =>
    apply ih
    dsimp only
    split
    · split
      · next t _ _ =>
        cases t.family
        · exact inv.release id
        · exact inv.release id
      · exact inv
    · exact inv

theorem Linked.step {s : Defrag} (inv : Linked s) : ∀ event, Linked (defragStep s event)
  | .ip4 key f l4 tick => inv.ip4Defrag key f l4 tick
  | .ip6 key f l3 tick => inv.ip6Defrag key f l3 tick
  | .roll now => inv.timerRoll now

theorem Linked.run {s : Defrag} (inv : Linked s) (events : List DefragEvent) :
    Linked (events.foldl defragStep s) := by
  induction events generalizing s with
  | nil => exact inv
  | cons event events ih => exact ih (inv.step event)

theorem defragRun_linked (events : List DefragEvent) : Linked (defragRun events) :=
  linked_init.run events

/-- One IPv6 first fragment (offset 0, more to come) and a timer roll past its timeout. -/
theorem ip6frag_release_leaves_map :
    (defragRun [.ip6 7 ⟨1, 8, fun _ => 0, by decide, by decide⟩ 14 0, .roll 11]).tracs[0]?.map
        (·.status) = some .released ∧
      0 ∈ (defragRun [.ip6 7 ⟨1, 8, fun _ => 0, by decide, by decide⟩ 14 0, .roll 11]).ip6Map := by
  decide

theorem ip6fragHold_first_fragment :
    (ip6fragHold (newTrac .ip6 7 0) ⟨1, 8, fun _ => 0, by decide, by decide⟩).first = false ∧
      (ip6fragHold (newTrac .ip6 7 0) ⟨1, 8, fun _ => 0, by decide, by decide⟩).last = true := by
  decide

end MicroSegment.Dpi
