import Mathlib
import MicroSegment.Dpi.Fqdn

/-!
# What every run of the FQDN handle keeps

Between two operations the handle is in a shape that `FqdnInv` states in three parts: the name
map links exactly the live records (`Shape`); each live record holds its own code and the
bitmap marks exactly those codes (`CodesOK`); and a record and an IP are associated on both
sides or on neither (`AssocOK`). Each operation keeps it (`FqdnInv.step`), so every run does
(`fqdnRun_inv`).
-/

namespace MicroSegment.Dpi

open MicroSegment.Dp

def codeIndex (code : UInt32) : Nat := (ntohl code).toNat

/-- A record allocated and not freed. -/
def FqdnHdl.Live (h : FqdnHdl) (r : Nat) : Prop := r < h.records.length ∧ (h.record r).freed = false

instance (h : FqdnHdl) (r : Nat) : Decidable (h.Live r) := inferInstanceAs (Decidable (_ ∧ _))

/-- The records `fqdn_name_map` links. -/
def FqdnHdl.linked (h : FqdnHdl) : List Nat := h.nameMap.map (·.r)

/-- The `rlist` of the entry of `ip` in `fqdn_ipv4_map`, empty when there is none. -/
def FqdnHdl.rlistOf (h : FqdnHdl) (ip : UInt32) : List Nat := ((ipv4Lookup h ip).map (·.rlist)).getD []

/-- The name map and the records: the linked records are the live ones, each linked once and
none being deleted, and the queues of the delete pass are empty. -/
structure FqdnHdl.Shape (h : FqdnHdl) : Prop where
  bits : h.bm.bits = dpiFqdnMaxEntries
  names_idle : h.delNameList = []
  ipv4_idle : h.delIpv4List = []
  rlist_idle : h.delRlist = []
  linked : ∀ r, r ∈ h.linked ↔ h.Live r
  linked_nodup : h.linked.Nodup
  unflagged : ∀ r, h.Live r → h.deleted r = false

/-- The codes: each live record holds a code of its own in range, and the bitmap marks exactly
the codes held. -/
structure FqdnHdl.CodesOK (h : FqdnHdl) : Prop where
  range : ∀ r, h.Live r →
    1 ≤ codeIndex (h.record r).code ∧ codeIndex (h.record r).code ≤ dpiFqdnMaxEntries
  inj : ∀ r₁ r₂, h.Live r₁ → h.Live r₂ →
    codeIndex (h.record r₁).code = codeIndex (h.record r₂).code → r₁ = r₂
  bitmap : ∀ k, h.bm.bit k = true ↔ ∃ r, h.Live r ∧ codeIndex (h.record r).code = k + 1

/-- The association of records and IPs, kept on both sides: each IP has one entry, listing each
record once, only live ones and at least one; each live record lists each IP once and counts
them; and the two sides agree. -/
structure FqdnHdl.AssocOK (h : FqdnHdl) : Prop where
  ips_nodup : (h.ipv4Map.map (·.ip)).Nodup
  rlist_nodup : ∀ e ∈ h.ipv4Map, e.rlist.Nodup
  rlist_ne : ∀ e ∈ h.ipv4Map, e.rlist ≠ []
  rlist_live : ∀ e ∈ h.ipv4Map, ∀ r ∈ e.rlist, h.Live r
  iplist_nodup : ∀ r, h.Live r → (h.record r).iplist.Nodup
  ip_cnt : ∀ r, h.Live r → (h.record r).ipCnt = (h.record r).iplist.length
  both : ∀ r ip, h.Live r → (ip ∈ (h.record r).iplist ↔ r ∈ h.rlistOf ip)

structure FqdnInv (h : FqdnHdl) : Prop where
  shape : h.Shape
  codes : h.CodesOK
  assoc : h.AssocOK

theorem nameLookup_mem {h : FqdnHdl} {name : List Char} {entry : NameEntry}
    (found : nameLookup h name = some entry) : entry ∈ h.nameMap :=
  List.mem_of_find?_eq_some found

theorem FqdnHdl.Shape.live_of_lookup {h : FqdnHdl} (shape : h.Shape) {name : List Char}
    {entry : NameEntry} (found : nameLookup h name = some entry) : h.Live entry.r :=
  (shape.linked entry.r).mp (List.mem_map_of_mem (nameLookup_mem found))

theorem ipv4Lookup_spec {h : FqdnHdl} {ip : UInt32} {e : Ipv4Entry}
    (found : ipv4Lookup h ip = some e) : e ∈ h.ipv4Map ∧ e.ip = ip :=
  ⟨List.mem_of_find?_eq_some found, by simpa using List.find?_some found⟩

theorem ipv4Lookup_of_mem {h : FqdnHdl} (nodup : (h.ipv4Map.map (·.ip)).Nodup) {e : Ipv4Entry}
    (mem : e ∈ h.ipv4Map) : ipv4Lookup h e.ip = some e := by
  obtain ⟨e', found⟩ : ∃ e', ipv4Lookup h e.ip = some e' := by
    apply Option.ne_none_iff_exists'.mp
    intro none
    have := List.find?_eq_none.mp none e mem
    simp at this
  obtain ⟨mem', same⟩ := ipv4Lookup_spec found
  rw [found, List.inj_on_of_nodup_map nodup mem' mem same]

theorem FqdnHdl.rlistOf_of_mem {h : FqdnHdl} (nodup : (h.ipv4Map.map (·.ip)).Nodup)
    {e : Ipv4Entry} (mem : e ∈ h.ipv4Map) : h.rlistOf e.ip = e.rlist := by
  rw [FqdnHdl.rlistOf, ipv4Lookup_of_mem nodup mem]
  rfl

theorem FqdnHdl.mem_rlistOf {h : FqdnHdl} {ip : UInt32} {r : Nat} :
    r ∈ h.rlistOf ip ↔ ∃ e, ipv4Lookup h ip = some e ∧ r ∈ e.rlist := by
  unfold FqdnHdl.rlistOf
  cases ipv4Lookup h ip <;> simp

/-! ### Changes that keep the codes -/

/-- `h'` has the name map (in some order), bitmap, queues, codes and lives of `h`, and marks no
new record as being deleted. -/
structure SameCodes (h h' : FqdnHdl) : Prop where
  nameMap : h'.nameMap.Perm h.nameMap
  bm : h'.bm = h.bm
  names_idle : h'.delNameList = h.delNameList
  ipv4_idle : h'.delIpv4List = h.delIpv4List
  rlist_idle : h'.delRlist = h.delRlist
  length : h'.records.length = h.records.length
  code : ∀ r, (h'.record r).code = (h.record r).code
  freed : ∀ r, (h'.record r).freed = (h.record r).freed
  unflag : ∀ r, h'.deleted r = true → h.deleted r = true

/-- `h'` differs from `h` only in the records' flags and other fields the invariant does not read. -/
structure FlagsOnly (h h' : FqdnHdl) : Prop extends SameCodes h h' where
  ipv4Map : h'.ipv4Map = h.ipv4Map
  iplist : ∀ r, (h'.record r).iplist = (h.record r).iplist
  ipCnt : ∀ r, (h'.record r).ipCnt = (h.record r).ipCnt

section SameCodes

variable {h h' : FqdnHdl}

theorem SameCodes.live_iff (same : SameCodes h h') (r : Nat) : h'.Live r ↔ h.Live r := by
  unfold FqdnHdl.Live
  rw [same.length, same.freed]

theorem FlagsOnly.rlistOf (same : FlagsOnly h h') : h'.rlistOf = h.rlistOf := by
  funext ip
  unfold FqdnHdl.rlistOf ipv4Lookup
  rw [same.ipv4Map]

theorem FqdnHdl.Shape.of_sameCodes (shape : h.Shape) (same : SameCodes h h') : h'.Shape where
  bits := by rw [same.bm]; exact shape.bits
  names_idle := by rw [same.names_idle]; exact shape.names_idle
  ipv4_idle := by rw [same.ipv4_idle]; exact shape.ipv4_idle
  rlist_idle := by rw [same.rlist_idle]; exact shape.rlist_idle
  linked r := by
    unfold FqdnHdl.linked
    rw [(same.nameMap.map _).mem_iff, same.live_iff]
    exact shape.linked r
  linked_nodup := by
    unfold FqdnHdl.linked
    exact (same.nameMap.map _).nodup_iff.mpr shape.linked_nodup
  unflagged r live := by
    cases deleted : h'.deleted r with
    | false => rfl
    | true =>
      have before := same.unflag r deleted
      rw [shape.unflagged r ((same.live_iff r).mp live)] at before
      exact before.symm

theorem FqdnHdl.CodesOK.of_sameCodes (codes : h.CodesOK) (same : SameCodes h h') : h'.CodesOK where
  range r live := by
    rw [same.code]
    exact codes.range r ((same.live_iff r).mp live)
  inj r₁ r₂ live₁ live₂ eq := by
    rw [same.code, same.code] at eq
    exact codes.inj r₁ r₂ ((same.live_iff r₁).mp live₁) ((same.live_iff r₂).mp live₂) eq
  bitmap k := by
    rw [same.bm, codes.bitmap k]
    simp only [same.live_iff, same.code]

theorem FqdnHdl.AssocOK.of_flagsOnly (assoc : h.AssocOK) (same : FlagsOnly h h') :
    h'.AssocOK where
  ips_nodup := by rw [same.ipv4Map]; exact assoc.ips_nodup
  rlist_nodup := by rw [same.ipv4Map]; exact assoc.rlist_nodup
  rlist_ne := by rw [same.ipv4Map]; exact assoc.rlist_ne
  rlist_live e mem r member := by
    rw [same.ipv4Map] at mem
    exact (same.live_iff r).mpr (assoc.rlist_live e mem r member)
  iplist_nodup r live := by
    rw [same.iplist]
    exact assoc.iplist_nodup r ((same.live_iff r).mp live)
  ip_cnt r live := by
    rw [same.iplist, same.ipCnt]
    exact assoc.ip_cnt r ((same.live_iff r).mp live)
  both r ip live := by
    rw [same.iplist, same.rlistOf]
    exact assoc.both r ip ((same.live_iff r).mp live)

theorem FqdnInv.of_flagsOnly (inv : FqdnInv h) (same : FlagsOnly h h') : FqdnInv h' :=
  ⟨inv.shape.of_sameCodes same.toSameCodes, inv.codes.of_sameCodes same.toSameCodes,
    inv.assoc.of_flagsOnly same⟩

theorem flagsOnly_of_eq (h h' : FqdnHdl) (records : h'.records = h.records)
    (nameMap : h'.nameMap = h.nameMap) (ipv4Map : h'.ipv4Map = h.ipv4Map) (bm : h'.bm = h.bm)
    (names_idle : h'.delNameList = h.delNameList) (ipv4_idle : h'.delIpv4List = h.delIpv4List)
    (rlist_idle : h'.delRlist = h.delRlist) : FlagsOnly h h' := by
  have record : ∀ r, h'.record r = h.record r := by
    intro r
    unfold FqdnHdl.record
    rw [records]
  refine ⟨⟨.of_eq nameMap, bm, names_idle, ipv4_idle, rlist_idle, by rw [records], ?_, ?_, ?_⟩,
    ipv4Map, ?_, ?_⟩ <;> intro r <;> (try unfold FqdnHdl.deleted) <;> rw [record]
  exact id

theorem flagsOnly_modifyRecord (h : FqdnHdl) {r : Nat} (lt : r < h.records.length)
    (f : FqdnRecord → FqdnRecord)
    (code : (f (h.record r)).code = (h.record r).code)
    (freed : (f (h.record r)).freed = (h.record r).freed)
    (iplist : (f (h.record r)).iplist = (h.record r).iplist)
    (ipCnt : (f (h.record r)).ipCnt = (h.record r).ipCnt)
    (unflag : (h.modifyRecord r f).deleted r = true → h.deleted r = true) :
    FlagsOnly h (h.modifyRecord r f) where
  nameMap := .rfl
  ipv4Map := rfl
  bm := rfl
  names_idle := rfl
  ipv4_idle := rfl
  rlist_idle := rfl
  length := h.records_length_modifyRecord r f
  code r' := by rw [h.record_modifyRecord f lt]; split <;> simp_all
  freed r' := by rw [h.record_modifyRecord f lt]; split <;> simp_all
  iplist r' := by rw [h.record_modifyRecord f lt]; split <;> simp_all
  ipCnt r' := by rw [h.record_modifyRecord f lt]; split <;> simp_all
  unflag r' := by
    by_cases same : r' = r
    · rw [same]
      exact unflag
    · unfold FqdnHdl.deleted
      rw [h.record_modifyRecord f lt, if_neg same]
      exact id

end SameCodes

/-! ### Associating a record and an IP -/

def addTail {α : Type} [DecidableEq α] (a : α) (l : List α) : List α := if a ∈ l then l else l ++ [a]

section AddTail

variable {α : Type} [DecidableEq α] {a b : α} {l : List α}

@[simp] theorem mem_addTail : b ∈ addTail a l ↔ b ∈ l ∨ b = a := by
  unfold addTail
  split
  · constructor
    · exact .inl
    · rintro (mem | rfl) <;> assumption
  · simp

theorem nodup_addTail (nodup : l.Nodup) : (addTail a l).Nodup := by
  unfold addTail
  split
  · exact nodup
  · next absent => exact nodup.append (List.nodup_singleton a) (by simpa using absent)

theorem addTail_ne_nil : addTail a l ≠ [] := by
  unfold addTail
  split
  · next mem => exact List.ne_nil_of_mem mem
  · simp

end AddTail

theorem configRecordIpList_entry (h : FqdnHdl) (e : Ipv4Entry) (r : Nat) :
    (configRecordIpList h e r).2.1 = { e with rlist := addTail r e.rlist } := by
  unfold configRecordIpList addTail
  by_cases mem : r ∈ e.rlist <;> simp only [mem, if_true, if_false] <;> split <;> rfl

theorem configRecordIpList_hdl (h : FqdnHdl) (e : Ipv4Entry) (r : Nat) :
    (configRecordIpList h e r).1 =
      if e.ip ∈ (h.record r).iplist then h
      else h.modifyRecord r fun rec =>
        { rec with iplist := rec.iplist ++ [e.ip], ipCnt := rec.ipCnt + 1 } := by
  unfold configRecordIpList
  by_cases mem : r ∈ e.rlist <;> simp only [mem, if_true, if_false] <;> split <;> simp_all

theorem ipv4Lookup_setIpv4 (h : FqdnHdl) (e : Ipv4Entry) (ip : UInt32) :
    ipv4Lookup (h.setIpv4 e) ip = (ipv4Lookup h ip).map fun x => if x.ip = e.ip then e else x := by
  unfold ipv4Lookup FqdnHdl.setIpv4
  rw [List.find?_map]
  congr 2
  funext x
  by_cases same : x.ip = e.ip <;> simp [same]

theorem ipv4Lookup_append (h : FqdnHdl) (e : Ipv4Entry) (absent : ipv4Lookup h e.ip = none)
    (ip : UInt32) :
    ipv4Lookup { h with ipv4Map := h.ipv4Map ++ [e] } ip =
      if ip = e.ip then some e else ipv4Lookup h ip := by
  unfold ipv4Lookup at absent ⊢
  rw [List.find?_append]
  by_cases same : ip = e.ip
  · subst same
    simp [absent]
  · simp [same, Ne.symm same]

/-- What `associateIp` does: the record gains the IP and the IP's entry the record, each unless
it has it already, and nothing else changes that the invariant reads. -/
structure AddsPair (h h' : FqdnHdl) (r : Nat) (ip : UInt32) : Prop extends SameCodes h h' where
  iplist : ∀ r', (h'.record r').iplist =
    if r' = r then addTail ip (h.record r).iplist else (h.record r').iplist
  ipCnt : ∀ r', (h'.record r').ipCnt =
    if r' = r ∧ ip ∉ (h.record r).iplist then (h.record r).ipCnt + 1 else (h.record r').ipCnt
  rlistOf : ∀ ip', h'.rlistOf ip' = if ip' = ip then addTail r (h.rlistOf ip) else h.rlistOf ip'
  entries : ∀ e ∈ h'.ipv4Map, e ∈ h.ipv4Map ∨ (e.ip = ip ∧ e.rlist = addTail r (h.rlistOf ip))
  ips : (h.ipv4Map.map (·.ip)).Nodup → (h'.ipv4Map.map (·.ip)).Nodup

theorem addsPair_records (h : FqdnHdl) {r : Nat} (lt : r < h.records.length) (ip : UInt32) :
    let h' := if ip ∈ (h.record r).iplist then h
      else h.modifyRecord r fun rec => { rec with iplist := rec.iplist ++ [ip], ipCnt := rec.ipCnt + 1 }
    h'.records.length = h.records.length ∧
      (∀ r', (h'.record r').code = (h.record r').code ∧ (h'.record r').freed = (h.record r').freed ∧
        (h'.record r').flag = (h.record r').flag) ∧
      (∀ r', (h'.record r').iplist =
        if r' = r then addTail ip (h.record r).iplist else (h.record r').iplist) ∧
      (∀ r', (h'.record r').ipCnt =
        if r' = r ∧ ip ∉ (h.record r).iplist then (h.record r).ipCnt + 1 else (h.record r').ipCnt) := by
  intro h'
  by_cases mem : ip ∈ (h.record r).iplist
  · have same : h' = h := if_pos mem
    rw [same]
    refine ⟨rfl, fun r' => ⟨rfl, rfl, rfl⟩, fun r' => ?_, fun r' => ?_⟩
    · unfold addTail
      split <;> simp_all
    · simp [mem]
  · have added : h' = h.modifyRecord r fun rec =>
        { rec with iplist := rec.iplist ++ [ip], ipCnt := rec.ipCnt + 1 } := if_neg mem
    rw [added]
    refine ⟨h.records_length_modifyRecord _ _, fun r' => ?_, fun r' => ?_, fun r' => ?_⟩
    · rw [h.record_modifyRecord _ lt]
      split <;> simp_all
    · rw [h.record_modifyRecord _ lt, addTail, if_neg mem]
      split <;> simp_all
    · rw [h.record_modifyRecord _ lt]
      split <;> simp_all

theorem configRecordIpList_frame (h : FqdnHdl) (e : Ipv4Entry) (r : Nat) :
    let h' := (configRecordIpList h e r).1
    h'.nameMap = h.nameMap ∧ h'.ipv4Map = h.ipv4Map ∧ h'.bm = h.bm ∧
      h'.delNameList = h.delNameList ∧ h'.delIpv4List = h.delIpv4List ∧ h'.delRlist = h.delRlist := by
  intro h'
  have eq : h' = _ := configRecordIpList_hdl h e r
  rw [eq]
  split <;> exact ⟨rfl, rfl, rfl, rfl, rfl, rfl⟩

theorem ipv4Lookup_congr {h h' : FqdnHdl} (same : h'.ipv4Map = h.ipv4Map) :
    ipv4Lookup h' = ipv4Lookup h := by
  funext ip
  unfold ipv4Lookup
  rw [same]

theorem associateIp_addsPair (h : FqdnHdl) {r : Nat} (lt : r < h.records.length) (ip : UInt32) :
    AddsPair h (associateIp h r ip).1 r ip := by
  unfold associateIp
  split
  · next e found =>
    obtain ⟨mem, is⟩ := ipv4Lookup_spec found
    subst is
    obtain ⟨nameMap, ipv4Map, bm, names, ipv4, rlist⟩ := configRecordIpList_frame h e r
    obtain ⟨length, fields, iplist, ipCnt⟩ := addsPair_records h lt e.ip
    rw [← configRecordIpList_hdl h e r] at length fields iplist ipCnt
    show AddsPair h ((configRecordIpList h e r).1.setIpv4 (configRecordIpList h e r).2.1) r e.ip
    rw [configRecordIpList_entry]
    refine ⟨⟨.of_eq nameMap, bm, names, ipv4, rlist, length, fun r' => (fields r').1,
      fun r' => (fields r').2.1, fun r' d => ?_⟩, iplist, ipCnt, fun ip' => ?_, fun x member => ?_, ?_⟩
    · unfold FqdnHdl.deleted at d ⊢
      rw [← (fields r').2.2]
      exact d
    · unfold FqdnHdl.rlistOf
      rw [ipv4Lookup_setIpv4, ipv4Lookup_congr ipv4Map]
      by_cases same : ip' = e.ip
      · rw [same, found]
        simp
      · rw [if_neg same]
        cases other : ipv4Lookup h ip' with
        | none => rfl
        | some x =>
          have : x.ip ≠ e.ip := by rw [(ipv4Lookup_spec other).2]; exact same
          simp [this]
    · unfold FqdnHdl.setIpv4 at member
      rw [ipv4Map] at member
      obtain ⟨x, xmem, rfl⟩ := List.mem_map.mp member
      by_cases same : x.ip = e.ip
      · rw [if_pos same]
        exact .inr ⟨rfl, by rw [FqdnHdl.rlistOf, found]; rfl⟩
      · rw [if_neg same]
        exact .inl xmem
    · intro nodup
      unfold FqdnHdl.setIpv4
      rw [List.map_map, ipv4Map]
      have keeps : ((·.ip) ∘ fun x : Ipv4Entry =>
          if x.ip = e.ip then { e with rlist := addTail r e.rlist } else x) = (·.ip) := by
        funext x
        by_cases same : x.ip = e.ip <;> simp [same]
      rw [keeps]
      exact nodup
  · next absent =>
    obtain ⟨nameMap, ipv4Map, bm, names, ipv4, rlist⟩ := configRecordIpList_frame h ⟨ip, []⟩ r
    obtain ⟨length, fields, iplist, ipCnt⟩ := addsPair_records h lt ip
    rw [← configRecordIpList_hdl h ⟨ip, []⟩ r] at length fields iplist ipCnt
    show AddsPair h { (configRecordIpList h ⟨ip, []⟩ r).1 with
      ipv4Map := (configRecordIpList h ⟨ip, []⟩ r).1.ipv4Map ++ [(configRecordIpList h ⟨ip, []⟩ r).2.1] } r ip
    rw [configRecordIpList_entry]
    have none' : ipv4Lookup (configRecordIpList h ⟨ip, []⟩ r).1 ip = none := by
      rw [ipv4Lookup_congr ipv4Map]
      exact absent
    refine ⟨⟨.of_eq nameMap, bm, names, ipv4, rlist, length, fun r' => (fields r').1,
      fun r' => (fields r').2.1, fun r' d => ?_⟩, iplist, ipCnt, fun ip' => ?_, fun x member => ?_, ?_⟩
    · unfold FqdnHdl.deleted at d ⊢
      rw [← (fields r').2.2]
      exact d
    · unfold FqdnHdl.rlistOf
      rw [ipv4Lookup_append _ _ none']
      by_cases same : ip' = ip
      · rw [if_pos same, if_pos same, absent]
        rfl
      · rw [if_neg same, if_neg same, ipv4Lookup_congr ipv4Map]
    · rw [ipv4Map] at member
      rcases List.mem_append.mp member with old | new
      · exact .inl old
      · rw [List.mem_singleton.mp new]
        exact .inr ⟨rfl, by rw [FqdnHdl.rlistOf, absent]; rfl⟩
    · intro nodup
      rw [ipv4Map, List.map_append]
      apply nodup.append (List.nodup_singleton _)
      intro x xmem ymem
      rw [List.mem_singleton.mp ymem] at xmem
      obtain ⟨y, ymem', yip⟩ := List.mem_map.mp xmem
      have := List.find?_eq_none.mp absent y ymem'
      simp [yip] at this

section Assoc

variable {h h' : FqdnHdl}

theorem FqdnHdl.AssocOK.rlistOf_nodup (assoc : h.AssocOK) (ip : UInt32) : (h.rlistOf ip).Nodup := by
  unfold FqdnHdl.rlistOf
  cases found : ipv4Lookup h ip with
  | none => exact List.nodup_nil
  | some e => exact assoc.rlist_nodup e (ipv4Lookup_spec found).1

theorem FqdnHdl.AssocOK.rlistOf_live (assoc : h.AssocOK) {ip : UInt32} {r : Nat}
    (mem : r ∈ h.rlistOf ip) : h.Live r := by
  obtain ⟨e, found, member⟩ := FqdnHdl.mem_rlistOf.mp mem
  exact assoc.rlist_live e (ipv4Lookup_spec found).1 r member

theorem AddsPair.assocOK {r : Nat} {ip : UInt32} (add : AddsPair h h' r ip) (live : h.Live r)
    (assoc : h.AssocOK) : h'.AssocOK where
  ips_nodup := add.ips assoc.ips_nodup
  rlist_nodup e mem := by
    rcases add.entries e mem with old | ⟨_, grown⟩
    · exact assoc.rlist_nodup e old
    · rw [grown]
      exact nodup_addTail (assoc.rlistOf_nodup ip)
  rlist_ne e mem := by
    rcases add.entries e mem with old | ⟨_, grown⟩
    · exact assoc.rlist_ne e old
    · rw [grown]
      exact addTail_ne_nil
  rlist_live e mem r' member := by
    rw [add.live_iff]
    rcases add.entries e mem with old | ⟨_, grown⟩
    · exact assoc.rlist_live e old r' member
    · rw [grown, mem_addTail] at member
      rcases member with old | rfl
      · exact assoc.rlistOf_live old
      · exact live
  iplist_nodup r' live' := by
    rw [add.iplist]
    split
    · exact nodup_addTail (assoc.iplist_nodup r live)
    · exact assoc.iplist_nodup r' ((add.live_iff r').mp live')
  ip_cnt r' live' := by
    rw [add.iplist, add.ipCnt]
    by_cases same : r' = r
    · subst same
      have count := assoc.ip_cnt r' live
      by_cases had : ip ∈ (h.record r').iplist
      · simp [addTail, had, count]
      · simp [addTail, had, count]
    · simp only [same, false_and, if_false]
      exact assoc.ip_cnt r' ((add.live_iff r').mp live')
  both r' ip' live' := by
    have before := assoc.both r' ip' ((add.live_iff r').mp live')
    rw [add.iplist, add.rlistOf]
    by_cases same : r' = r <;> by_cases at_ip : ip' = ip
    · subst same at_ip
      simp
    · subst same
      simp [at_ip, before]
    · subst at_ip
      simp [same, before]
    · simp [same, at_ip, before]

end Assoc

theorem FqdnInv.associateIp {h : FqdnHdl} (inv : FqdnInv h) {r : Nat} (live : h.Live r)
    (ip : UInt32) : FqdnInv (associateIp h r ip).1 ∧ (associateIp h r ip).1.Live r := by
  have add := associateIp_addsPair h live.1 ip
  exact ⟨⟨inv.shape.of_sameCodes add.toSameCodes, inv.codes.of_sameCodes add.toSameCodes,
    add.assocOK live inv.assoc⟩, (add.live_iff r).mpr live⟩

theorem FqdnInv.associateIpRecord {h : FqdnHdl} (inv : FqdnInv h) {r : Nat} (live : h.Live r)
    (ips : List UInt32) : FqdnInv (associateIpRecord h r ips) := by
  -- the loop over the answer's IPs keeps the invariant and the record live, whatever it records
  -- beside the handle
  have loop : ∀ {f : FqdnHdl × Bool → UInt32 → FqdnHdl × Bool} {acc' : FqdnHdl × Bool},
      ips.foldl f (h, false) = acc' →
      (∀ acc ip, (f acc ip).1 = (MicroSegment.Dpi.associateIp acc.1 r ip).1) →
      FqdnInv acc'.1 ∧ acc'.1.Live r := by
    intro f acc' folded step
    have run : ∀ (ips : List UInt32) (acc : FqdnHdl × Bool), FqdnInv acc.1 → acc.1.Live r →
        FqdnInv (ips.foldl f acc).1 ∧ (ips.foldl f acc).1.Live r := by
      intro ips
      induction ips with
      | nil => exact fun acc inv live => ⟨inv, live⟩
      | cons ip ips ih =>
        intro acc inv live
        rw [List.foldl_cons]
        apply ih
        · rw [step]
          exact (inv.associateIp live ip).1
        · rw [step]
          exact (inv.associateIp live ip).2
    rw [← folded]
    exact run ips (h, false) inv live
  unfold MicroSegment.Dpi.associateIpRecord
  split
  next _ acc' _ folded =>
    obtain ⟨inv', live'⟩ := loop folded fun _ _ => rfl
    dsimp only at inv' live'
    split
    · apply inv'.of_flagsOnly
      apply flagsOnly_modifyRecord _ live'.1 <;> try rfl
      unfold FqdnHdl.deleted
      rw [FqdnHdl.record_modifyRecord _ _ live'.1, if_pos rfl]
      exact id
    · exact inv'

theorem FqdnInv.snoopAssociate {h : FqdnHdl} (inv : FqdnInv h) (ips : List UInt32)
    (key : List Char) : FqdnInv (snoopAssociate ips h key) := by
  unfold MicroSegment.Dpi.snoopAssociate
  split
  · next entry found =>
    split
    · exact inv.associateIpRecord (inv.shape.live_of_lookup found) ips
    · exact inv
  · exact inv

theorem FqdnInv.snooped {h : FqdnHdl} (inv : FqdnInv h) (name : List Char) (ips : List UInt32) :
    FqdnInv (snoopedFqdnIpv4Mapping h name ips) := by
  have tries : ∀ (keys : List (List Char)) (h : FqdnHdl), FqdnInv h →
      FqdnInv (keys.foldl (MicroSegment.Dpi.snoopAssociate ips) h) := by
    intro keys
    induction keys with
    | nil => exact fun _ inv => inv
    | cons key keys ih => exact fun h inv => ih _ (inv.snoopAssociate ips key)
  exact tries _ _ (inv.snoopAssociate ips _)

/-! ### Configuration -/

theorem allocFqdnCode_cases (h : FqdnHdl) (bits : h.bm.bits = dpiFqdnMaxEntries) :
    (allocFqdnCode h = ({ h with codeCnt := -1 }, UInt32.ofInt (-1)) ∧
        ∀ k, k < dpiFqdnMaxEntries → h.bm.bit k = true) ∨
      ∃ k, k < dpiFqdnMaxEntries ∧ h.bm.bit k = false ∧
        allocFqdnCode h =
          ({ h with bm := bitmapSet h.bm k, codeCnt := (k : Int) + 1 }, htonl (UInt32.ofNat (k + 1))) ∧
        htonl (UInt32.ofNat (k + 1)) ≠ UInt32.ofInt (-1) := by
  unfold allocFqdnCode
  rcases bitmapGetNextZero_cases h.bm h.codeCnt with ⟨k, below, clear, found⟩ | ⟨full, none⟩
  · rw [bits] at below
    refine .inr ⟨k, below, clear, ?_, fun same => ?_⟩
    · rw [found]
      simp
    · have back := congrArg ntohl same
      rw [ntohl_htonl, show ntohl (UInt32.ofInt (-1)) = 4294967295 by decide] at back
      have := congrArg UInt32.toNat back
      rw [UInt32.toNat_ofNat_of_lt' (by unfold dpiFqdnMaxEntries at below; unfold UInt32.size; omega)] at this
      unfold dpiFqdnMaxEntries at below
      simp at this
      omega
  · rw [bits] at full
    refine .inl ⟨?_, full⟩
    rw [none]
    rfl

theorem codeIndex_htonl {k : Nat} (below : k < dpiFqdnMaxEntries) :
    codeIndex (htonl (UInt32.ofNat (k + 1))) = k + 1 := by
  unfold codeIndex
  rw [ntohl_htonl, UInt32.toNat_ofNat_of_lt' (by unfold dpiFqdnMaxEntries at below; unfold UInt32.size; omega)]

theorem List.getD_append_singleton {α : Type} (l : List α) (x d : α) (r : Nat) :
    (l ++ [x]).getD r d = if r = l.length then x else l.getD r d := by
  simp only [List.getD_eq_getElem?_getD]
  by_cases below : r < l.length
  · rw [List.getElem?_append_left below, if_neg (by omega)]
  · rw [List.getElem?_append_right (by omega)]
    by_cases at_end : r = l.length
    · subst at_end
      simp
    · rw [if_neg at_end, List.getElem?_eq_none (by simp; omega),
        List.getElem?_eq_none (by omega)]

/-- The handle `config_fqdn_ipv4_mapping` makes for a name it does not find: bit `k` set and a
record added, linked under the name. -/
def FqdnHdl.withRecord (h : FqdnHdl) (k : Nat) (cnt : Int) (rec : FqdnRecord) (name : List Char) :
    FqdnHdl :=
  { h with bm := bitmapSet h.bm k, codeCnt := cnt, records := h.records ++ [rec],
           nameMap := h.nameMap ++ [⟨name, h.records.length⟩] }

section WithRecord

variable {h : FqdnHdl} {k : Nat} {cnt : Int} {rec : FqdnRecord} {name : List Char}

theorem FqdnHdl.record_withRecord (r : Nat) :
    (h.withRecord k cnt rec name).record r = if r = h.records.length then rec else h.record r :=
  List.getD_append_singleton _ _ _ _

theorem FqdnHdl.live_withRecord (fresh : rec.freed = false) (r : Nat) :
    (h.withRecord k cnt rec name).Live r ↔ h.Live r ∨ r = h.records.length := by
  unfold FqdnHdl.Live
  rw [FqdnHdl.record_withRecord]
  show r < (h.records ++ [rec]).length ∧ _ ↔ _
  rw [List.length_append, List.length_singleton]
  by_cases at_end : r = h.records.length
  · simp [at_end, fresh]
  · rw [if_neg at_end]
    constructor
    · rintro ⟨below, freed⟩
      exact .inl ⟨by omega, freed⟩
    · rintro (⟨below, freed⟩ | same)
      · exact ⟨by omega, freed⟩
      · exact absurd same at_end

variable (inv : FqdnInv h) (below : k < dpiFqdnMaxEntries) (clear : h.bm.bit k = false)
  (code : rec.code = htonl (UInt32.ofNat (k + 1))) (fresh : rec.freed = false)
  (empty : rec.iplist = []) (uncounted : rec.ipCnt = 0)
  (unflag : rec.flag &&& fqdnRecordDeleted = 0)

include inv fresh unflag in
theorem FqdnHdl.Shape.withRecord : (h.withRecord k cnt rec name).Shape where
  bits := inv.shape.bits
  names_idle := inv.shape.names_idle
  ipv4_idle := inv.shape.ipv4_idle
  rlist_idle := inv.shape.rlist_idle
  linked r := by
    show r ∈ (h.nameMap ++ [(⟨name, h.records.length⟩ : NameEntry)]).map (fun e => e.r) ↔ _
    rw [List.map_append, List.mem_append, FqdnHdl.live_withRecord fresh, ← inv.shape.linked r]
    simp [FqdnHdl.linked]
  linked_nodup := by
    show ((h.nameMap ++ [(⟨name, h.records.length⟩ : NameEntry)]).map (fun e => e.r)).Nodup
    rw [List.map_append]
    apply inv.shape.linked_nodup.append (List.nodup_singleton _)
    intro r linked added
    rw [List.mem_singleton.mp added] at linked
    have := ((inv.shape.linked _).mp linked).1
    exact Nat.lt_irrefl _ this
  unflagged r live := by
    unfold FqdnHdl.deleted
    rw [FqdnHdl.record_withRecord]
    by_cases at_end : r = h.records.length
    · rw [if_pos at_end, unflag]
      rfl
    · rw [if_neg at_end]
      have old := ((FqdnHdl.live_withRecord fresh r).mp live).resolve_right at_end
      exact inv.shape.unflagged r old

include inv below clear code fresh in
theorem FqdnHdl.CodesOK.withRecord : (h.withRecord k cnt rec name).CodesOK where
  range r live := by
    rw [FqdnHdl.record_withRecord]
    split
    · rw [code, codeIndex_htonl below]
      unfold dpiFqdnMaxEntries at below ⊢
      omega
    · next at_end =>
      exact inv.codes.range r (((FqdnHdl.live_withRecord fresh r).mp live).resolve_right at_end)
  inj r₁ r₂ live₁ live₂ same := by
    rw [FqdnHdl.record_withRecord, FqdnHdl.record_withRecord] at same
    -- a live record other than the new one holds a code whose bit is set, and bit `k` is clear
    have taken : ∀ r, h.Live r → codeIndex (h.record r).code ≠ k + 1 := by
      intro r live eq
      have := (inv.codes.bitmap k).mpr ⟨r, live, eq⟩
      rw [clear] at this
      exact Bool.noConfusion this
    rcases (FqdnHdl.live_withRecord fresh r₁).mp live₁ with old₁ | rfl <;>
      rcases (FqdnHdl.live_withRecord fresh r₂).mp live₂ with old₂ | rfl
    · rw [if_neg (by have := old₁.1; omega), if_neg (by have := old₂.1; omega)] at same
      exact inv.codes.inj r₁ r₂ old₁ old₂ same
    · rw [if_neg (by have := old₁.1; omega), if_pos rfl, code, codeIndex_htonl below] at same
      exact absurd same (taken r₁ old₁)
    · rw [if_pos rfl, if_neg (by have := old₂.1; omega), code, codeIndex_htonl below] at same
      exact absurd same.symm (taken r₂ old₂)
    · rfl
  bitmap j := by
    show (bitmapSet h.bm k).bit j = true ↔ _
    rw [bit_bitmapSet _ (by rw [inv.shape.bits]; exact below), Bool.or_eq_true,
      inv.codes.bitmap j, decide_eq_true_iff]
    constructor
    · rintro (⟨r, live, at_j⟩ | rfl)
      · refine ⟨r, (FqdnHdl.live_withRecord fresh r).mpr (.inl live), ?_⟩
        rw [FqdnHdl.record_withRecord, if_neg (by have := live.1; omega)]
        exact at_j
      · refine ⟨h.records.length, (FqdnHdl.live_withRecord fresh _).mpr (.inr rfl), ?_⟩
        rw [FqdnHdl.record_withRecord, if_pos rfl, code, codeIndex_htonl below]
    · rintro ⟨r, live, at_j⟩
      rw [FqdnHdl.record_withRecord] at at_j
      split at at_j
      · rw [code, codeIndex_htonl below] at at_j
        exact .inr (by omega)
      · next at_end =>
        exact .inl ⟨r, ((FqdnHdl.live_withRecord fresh r).mp live).resolve_right at_end, at_j⟩

include inv fresh empty uncounted in
theorem FqdnHdl.AssocOK.withRecord : (h.withRecord k cnt rec name).AssocOK where
  ips_nodup := inv.assoc.ips_nodup
  rlist_nodup := inv.assoc.rlist_nodup
  rlist_ne := inv.assoc.rlist_ne
  rlist_live e mem r member :=
    (FqdnHdl.live_withRecord fresh r).mpr (.inl (inv.assoc.rlist_live e mem r member))
  iplist_nodup r live := by
    rw [FqdnHdl.record_withRecord]
    split
    · rw [empty]
      exact List.nodup_nil
    · next at_end =>
      exact inv.assoc.iplist_nodup r (((FqdnHdl.live_withRecord fresh r).mp live).resolve_right at_end)
  ip_cnt r live := by
    rw [FqdnHdl.record_withRecord]
    split
    · rw [empty, uncounted]
      rfl
    · next at_end =>
      exact inv.assoc.ip_cnt r (((FqdnHdl.live_withRecord fresh r).mp live).resolve_right at_end)
  both r ip live := by
    show _ ↔ r ∈ h.rlistOf ip
    rw [FqdnHdl.record_withRecord]
    split
    · next at_end =>
      rw [empty]
      -- no entry lists the new record: the ones listed are live, so allocated before it
      constructor
      · intro none
        exact absurd none (List.not_mem_nil)
      · intro listed
        have := (inv.assoc.rlistOf_live listed).1
        omega
    · next at_end =>
      exact inv.assoc.both r ip (((FqdnHdl.live_withRecord fresh r).mp live).resolve_right at_end)

end WithRecord

theorem FqdnInv.configRecordIp {h : FqdnHdl} (inv : FqdnInv h) {r : Nat} (live : h.Live r)
    (ip : UInt32) : FqdnInv (configRecordIp h r ip).1 := by
  unfold MicroSegment.Dpi.configRecordIp
  split
  · exact inv
  · exact (inv.associateIp live ip).1

theorem wildcard_flag_not_deleted (wild : Prop) [Decidable wild] :
    (if wild then fqdnRecordWildcard else 0) &&& fqdnRecordDeleted = 0 := by
  split <;> rfl

theorem FqdnInv.config {h : FqdnHdl} (inv : FqdnInv h) (name : List Char) (ip : UInt32)
    (vh : Bool) : FqdnInv (configFqdnIpv4Mapping h name ip vh).1 := by
  unfold configFqdnIpv4Mapping
  split
  · -- the pair `alloc_fqdn_code` returns kept abstract: only its two cases are read
    have cases := allocFqdnCode_cases h inv.shape.bits
    generalize allocFqdnCode h = allocated at cases
    obtain ⟨h', code⟩ := allocated
    rcases cases with ⟨failed, _⟩ | ⟨k, below, clear, made, ne⟩
    · -- no code left: only the cursor moves
      obtain ⟨moved, rfl⟩ := Prod.mk.inj failed
      dsimp only
      rw [if_pos rfl, moved]
      exact inv.of_flagsOnly (flagsOnly_of_eq _ _ rfl rfl rfl rfl rfl rfl rfl)
    · obtain ⟨moved, rfl⟩ := Prod.mk.inj made
      -- `dsimp` would leave the kernel to evaluate `UInt32.ofInt (-1)`, which it cannot do
      simp only
      rw [if_neg ne, moved]
      have flag := wildcard_flag_not_deleted (isFqdnNameWildcard (strlcpy name maxFqdnLen) = true)
      have inv' : FqdnInv (h.withRecord k ((k : Int) + 1)
          ⟨strlcpy name maxFqdnLen, htonl (UInt32.ofNat (k + 1)),
            if isFqdnNameWildcard (strlcpy name maxFqdnLen) then fqdnRecordWildcard else 0,
            0, false, [], vh, false⟩ name) :=
        ⟨FqdnHdl.Shape.withRecord inv rfl flag,
          FqdnHdl.CodesOK.withRecord inv below clear rfl rfl,
          FqdnHdl.AssocOK.withRecord inv rfl rfl rfl⟩
      exact inv'.configRecordIp ((FqdnHdl.live_withRecord rfl _).mpr (.inr rfl)) ip
  · next entry found =>
    -- an existing record: its flags are reset, then the IP associated
    have live := inv.shape.live_of_lookup found
    have same : FlagsOnly h (h.modifyRecord entry.r fun rec =>
        { rec with vh := vh,
                   flag := if rec.flag &&& fqdnRecordWildcard ≠ 0 then fqdnRecordWildcard else 0 }) := by
      apply flagsOnly_modifyRecord _ live.1 <;> try rfl
      intro deleted
      unfold FqdnHdl.deleted at deleted
      rw [h.record_modifyRecord _ live.1, if_pos rfl, wildcard_flag_not_deleted] at deleted
      exact absurd deleted (by decide)
    exact (inv.of_flagsOnly same).configRecordIp ((same.live_iff _).mpr live) ip

theorem FqdnInv.markDelete {h : FqdnHdl} (inv : FqdnInv h) (name : List Char) :
    FqdnInv (dpiFqdnEntryMarkDelete h name) := by
  unfold dpiFqdnEntryMarkDelete
  split
  · next entry found =>
    have live := inv.shape.live_of_lookup found
    apply inv.of_flagsOnly
    apply flagsOnly_modifyRecord _ live.1 <;> try rfl
    intro deleted
    unfold FqdnHdl.deleted at deleted ⊢
    rw [decide_eq_true_iff]
    rw [h.record_modifyRecord _ live.1, if_pos rfl] at deleted
    -- the mark sets bit 0, which leaves bit 1 as it was
    simpa [Nat.and_or_distrib_right, fqdnRecordToDelete, fqdnRecordDeleted] using deleted
  · exact inv

end MicroSegment.Dpi
