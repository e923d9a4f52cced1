import MicroSegment.Dp.Bitmap
import MicroSegment.Lib.MapWalk

/-!
# FQDN records (`dpi/dpi_policy.c`)

A record stands for one FQDN the policy names. It holds a code, which the policy table uses as a
pseudo-IP, and the IPs the name resolved to. `fqdn_name_map` finds the record of a name and
`fqdn_ipv4_map` the records of an IP. A code is a bit of the handle's bitmap, one above its bit
index, in network byte order.

Records are created by the policy configuration, gain IPs from the configuration and from DNS
snooping, are marked for deletion by name, and the marked ones are freed in batches by
`dpi_fqdn_entry_delete_marked`.

Names are C strings, kept as the list of their characters without the terminating NUL. Records
are kept as the list of all that were ever allocated, so that an index stands for an address.
-/

namespace MicroSegment.Dpi

open MicroSegment.Dp

def fqdnRecordToDelete : Nat := 0x1

def fqdnRecordDeleted : Nat := 0x2

def fqdnRecordWildcard : Nat := 0x4

def dpiFqdnMaxEntries : Nat := 2048

def maxFqdnLen : Nat := 256

def dpiFqdnDeleteQlen : Nat := 32

def bswap32 (x : UInt32) : UInt32 :=
  UInt32.ofNat (x.toNat % 2 ^ 8 * 2 ^ 24 + x.toNat / 2 ^ 8 % 2 ^ 8 * 2 ^ 16 +
    x.toNat / 2 ^ 16 % 2 ^ 8 * 2 ^ 8 + x.toNat / 2 ^ 24 % 2 ^ 8)

def htonl (x : UInt32) : UInt32 := bswap32 x

def ntohl (x : UInt32) : UInt32 := bswap32 x

theorem toNat_bswap32 (x : UInt32) :
    (bswap32 x).toNat = x.toNat % 2 ^ 8 * 2 ^ 24 + x.toNat / 2 ^ 8 % 2 ^ 8 * 2 ^ 16 +
      x.toNat / 2 ^ 16 % 2 ^ 8 * 2 ^ 8 + x.toNat / 2 ^ 24 % 2 ^ 8 :=
  UInt32.toNat_ofNat_of_lt' (by unfold UInt32.size; omega)

theorem bytes_of_swapped {a b c d : Nat} (ha : a < 256) (hb : b < 256) (hc : c < 256)
    (hd : d < 256) :
    (a * 16777216 + b * 65536 + c * 256 + d) % 256 = d ∧
      (a * 16777216 + b * 65536 + c * 256 + d) / 256 % 256 = c ∧
      (a * 16777216 + b * 65536 + c * 256 + d) / 65536 % 256 = b ∧
      (a * 16777216 + b * 65536 + c * 256 + d) / 16777216 % 256 = a := by
  omega

theorem bswap32_bswap32 (x : UInt32) : bswap32 (bswap32 x) = x := by
  apply UInt32.toNat_inj.mp
  rw [toNat_bswap32, toNat_bswap32]
  simp only [Nat.reducePow]
  have lt : x.toNat < 4294967296 := x.toNat_lt
  obtain ⟨byte0, byte1, byte2, byte3⟩ := bytes_of_swapped (Nat.mod_lt x.toNat (by decide : 0 < 256))
    (Nat.mod_lt (x.toNat / 256) (by decide : 0 < 256))
    (Nat.mod_lt (x.toNat / 65536) (by decide : 0 < 256))
    (Nat.mod_lt (x.toNat / 16777216) (by decide : 0 < 256))
  rw [byte0, byte1, byte2, byte3]
  -- the swapped bytes are out of the way: what is left is the bytes of `x` put together
  clear byte0 byte1 byte2 byte3
  omega

@[simp] theorem ntohl_htonl (x : UInt32) : ntohl (htonl x) = x := bswap32_bswap32 x

/-- `sdbm_hash` over the characters of a name. -/
def sdbmHash (s : List Char) : UInt32 :=
  s.foldl (fun hash c => UInt32.ofNat c.toNat + (hash <<< 6) + (hash <<< 16) - hash) 0

def strcaseEq (a b : List Char) : Bool := a.map Char.toLower == b.map Char.toLower

def strlcpy (src : List Char) (n : Nat) : List Char := src.take (n - 1)

/-- `fqdn_record_t`; `freed` is whether `free(r)` has run. -/
structure FqdnRecord where
  name : List Char
  code : UInt32
  flag : Nat
  ipCnt : Nat
  recordUpdated : Bool
  iplist : List UInt32
  vh : Bool
  freed : Bool

instance : Inhabited FqdnRecord := ⟨⟨[], 0, 0, 0, false, [], false, false⟩⟩

/-- `fqdn_name_entry_t` with the key `rcu_map_add` hashed it under. -/
structure NameEntry where
  key : List Char
  r : Nat
  deriving DecidableEq

/-- `fqdn_ipv4_entry_t`: the records of its `rlist` items, in order. -/
structure Ipv4Entry where
  ip : UInt32
  rlist : List Nat
  deriving DecidableEq

/-- `dpi_fqdn_hdl_t`; the two maps hold the entries linked in them, the queues what the delete
pass has taken out, and `delRlist` the records of the `rlist` items set aside. -/
structure FqdnHdl where
  records : List FqdnRecord
  nameMap : List NameEntry
  ipv4Map : List Ipv4Entry
  bm : Bitmap
  codeCnt : Int
  delNameList : List NameEntry
  delIpv4List : List Ipv4Entry
  delRlist : List Nat

def dpiFqdnHdlInit : FqdnHdl := ⟨[], [], [], bitmapAllocate dpiFqdnMaxEntries, 0, [], [], []⟩

def FqdnHdl.record (h : FqdnHdl) (r : Nat) : FqdnRecord := h.records.getD r default

def FqdnHdl.modifyRecord (h : FqdnHdl) (r : Nat) (f : FqdnRecord → FqdnRecord) : FqdnHdl :=
  { h with records := h.records.modify r f }

theorem FqdnHdl.record_modifyRecord (h : FqdnHdl) {r : Nat} (f : FqdnRecord → FqdnRecord)
    (lt : r < h.records.length) (r' : Nat) :
    (h.modifyRecord r f).record r' = if r' = r then f (h.record r) else h.record r' := by
  unfold FqdnHdl.record FqdnHdl.modifyRecord
  simp only [List.getD_eq_getElem?_getD, List.getElem?_modify]
  by_cases same : r' = r
  · subst same
    simp [List.getElem?_eq_getElem lt]
  · simp [same, Ne.symm same]

@[simp] theorem FqdnHdl.records_length_modifyRecord (h : FqdnHdl) (r : Nat)
    (f : FqdnRecord → FqdnRecord) : (h.modifyRecord r f).records.length = h.records.length :=
  List.length_modify f h.records r

/-- `rcu_map_lookup` in `fqdn_name_map`: an entry added under a key of the same hash whose record's
name matches `fqdn_name_match`. -/
def nameLookup (h : FqdnHdl) (name : List Char) : Option NameEntry :=
  h.nameMap.find? fun e => sdbmHash e.key == sdbmHash name && strcaseEq (h.record e.r).name name

/-- `rcu_map_lookup` in `fqdn_ipv4_map`. -/
def ipv4Lookup (h : FqdnHdl) (ip : UInt32) : Option Ipv4Entry := h.ipv4Map.find? (·.ip == ip)

/-- `alloc_fqdn_code`: the cursor moves to the next clear bit, which is set; the code is the
cursor after it, in network order, or -1 when every bit is set. -/
def allocFqdnCode (h : FqdnHdl) : FqdnHdl × UInt32 :=
  let codeCnt := bitmapGetNextZero h.bm h.codeCnt
  if codeCnt < 0 then ({ h with codeCnt := codeCnt }, UInt32.ofInt (-1))
  else
    let bm := bitmapSet h.bm codeCnt.toNat
    ({ h with bm := bm, codeCnt := codeCnt + 1 }, htonl (UInt32.ofNat (codeCnt.toNat + 1)))

def freeFqdnCode (h : FqdnHdl) (code : UInt32) : FqdnHdl :=
  { h with bm := bitmapClear h.bm ((ntohl code).toNat - 1) }

/-! ### Configuration and snooping -/

/-- `is_fqdn_name_wildcard`: the first token of `str_split(name, ".")`, which skips empty
tokens, is `*`. -/
def isFqdnNameWildcard (name : List Char) : Bool :=
  strcaseEq ((name.dropWhile (· == '.')).takeWhile (· != '.')) ['*']

/-- `config_record_ip_list`: each side gains the other unless it has it; 1 when the record gained
the IP. -/
def configRecordIpList (h : FqdnHdl) (e : Ipv4Entry) (r : Nat) : FqdnHdl × Ipv4Entry × Int :=
  let e := if r ∈ e.rlist then e else { e with rlist := e.rlist ++ [r] }
  if e.ip ∈ (h.record r).iplist then (h, e, 0)
  else
    (h.modifyRecord r fun rec => { rec with iplist := rec.iplist ++ [e.ip], ipCnt := rec.ipCnt + 1 },
      e, 1)

/-- Write back an entry of `fqdn_ipv4_map` after its `rlist` changed. -/
def FqdnHdl.setIpv4 (h : FqdnHdl) (e : Ipv4Entry) : FqdnHdl :=
  { h with ipv4Map := h.ipv4Map.map fun e' => if e'.ip = e.ip then e else e' }

/-- The IP half of `config_fqdn_ipv4_mapping` and of `associate_ip_record` for one IP: the IP's
entry, made if there is none, and the record associated with it. The result is that of
`config_record_ip_list`, and 1 for a new entry. -/
def associateIp (h : FqdnHdl) (r : Nat) (ip : UInt32) : FqdnHdl × Int :=
  match ipv4Lookup h ip with
  | some e =>
    let (h, e, ret) := configRecordIpList h e r
    (h.setIpv4 e, ret)
  | none =>
    let (h, e, _) := configRecordIpList h ⟨ip, []⟩ r
    ({ h with ipv4Map := h.ipv4Map ++ [e] }, 1)

/-- The end of `config_fqdn_ipv4_mapping`: the IP associated with the record unless it is 0, and
the record's code returned. -/
def configRecordIp (h : FqdnHdl) (r : Nat) (ip : UInt32) : FqdnHdl × UInt32 :=
  if ip = 0 then (h, (h.record r).code) else ((associateIp h r ip).1, (h.record r).code)

/-- `config_fqdn_ipv4_mapping`: the record of `name`, made with a new code if there is none, and
the IP associated with it. Returns the code, or -1 when no code is left. -/
def configFqdnIpv4Mapping (h : FqdnHdl) (name : List Char) (ip : UInt32) (vh : Bool) :
    FqdnHdl × UInt32 :=
  match nameLookup h name with
  | none =>
    let rname := strlcpy name maxFqdnLen
    let (h, code) := allocFqdnCode h
    if code = UInt32.ofInt (-1) then (h, UInt32.ofInt (-1))
    else
      let flag := if isFqdnNameWildcard rname then fqdnRecordWildcard else 0
      let r := h.records.length
      configRecordIp { h with
        records := h.records ++ [⟨rname, code, flag, 0, false, [], vh, false⟩],
        nameMap := h.nameMap ++ [⟨name, r⟩] } r ip
  | some entry =>
    -- an existing record loses a mark for deletion
    configRecordIp (h.modifyRecord entry.r fun rec =>
      { rec with vh := vh,
                 flag := if rec.flag &&& fqdnRecordWildcard ≠ 0 then fqdnRecordWildcard else 0 })
      entry.r ip

def snoopable (rec : FqdnRecord) : Bool :=
  rec.flag &&& (fqdnRecordToDelete ||| fqdnRecordDeleted) = 0

/-- `associate_ip_record`: every IP of the answer associated with the record; a wildcard record
that gained an IP is flagged updated. -/
def associateIpRecord (h : FqdnHdl) (r : Nat) (ips : List UInt32) : FqdnHdl :=
  let (h, newIp) := ips.foldl
    (fun (acc : FqdnHdl × Bool) ip =>
      let (h, newIp) := acc
      let (h, ret) := associateIp h r ip
      (h, newIp || (ret = 1 && (h.record r).flag &&& fqdnRecordWildcard ≠ 0)))
    (h, false)
  if newIp then h.modifyRecord r fun rec => { rec with recordUpdated := true } else h

def lastDotFrom (dname : List Char) : Nat → Int
  | 0 => 0
  | j + 1 => if dname.getD (j + 1) ' ' = '.' then (j + 1 : Nat) else lastDotFrom dname j

def wildcardCandidates (dname : List Char) : List (List Char) :=
  let j := if dname.length < 2 then (dname.length : Int) - 2
    else lastDotFrom dname (dname.length - 2)
  ((List.range (j - 1).toNat).filter fun i => dname.getD (i + 1) ' ' = '.').map fun i =>
    '*' :: dname.drop (i + 1)

def snoopAssociate (ips : List UInt32) (h : FqdnHdl) (key : List Char) : FqdnHdl :=
  match nameLookup h key with
  | some entry => if snoopable (h.record entry.r) then associateIpRecord h entry.r ips else h
  | none => h

/-- `snooped_fqdn_ipv4_mapping`: the answer's IPs go to the record of the lowered name and to the
record of every wildcard name that covers it. -/
def snoopedFqdnIpv4Mapping (h : FqdnHdl) (name : List Char) (ips : List UInt32) : FqdnHdl :=
  let name := name.map Char.toLower
  (wildcardCandidates (strlcpy name maxFqdnLen)).foldl (snoopAssociate ips)
    (snoopAssociate ips h name)

def dpiFqdnEntryMarkDelete (h : FqdnHdl) (name : List Char) : FqdnHdl :=
  match nameLookup h name with
  | some entry =>
    h.modifyRecord entry.r fun rec => { rec with flag := rec.flag ||| fqdnRecordToDelete }
  | none => h

/-! ### Deletion

`rcu_map_for_each` is `MapWalk.walk`: the callbacks below drop the entry they visit where the
source calls `rcu_map_del` on it, and read nothing of the map they walk.
-/

/-- A record being deleted: taken out of `fqdn_name_map` by this delete pass. -/
def FqdnHdl.deleted (h : FqdnHdl) (r : Nat) : Bool := (h.record r).flag &&& fqdnRecordDeleted ≠ 0

/-- `enqueue_fqdn_name_to_del`; `none` when the queue is full. -/
def enqueueFqdnNameToDel (h : FqdnHdl) (entry : NameEntry) : Option FqdnHdl :=
  if h.delNameList.length = dpiFqdnDeleteQlen then none
  else some { h.modifyRecord entry.r (fun rec => { rec with flag := rec.flag ||| fqdnRecordDeleted })
    with delNameList := h.delNameList ++ [entry] }

def enqueueFqdnIpv4ToDel (h : FqdnHdl) (entry : Ipv4Entry) : Option FqdnHdl :=
  if h.delIpv4List.length = dpiFqdnDeleteQlen then none
  else some { h with delIpv4List := h.delIpv4List ++ [entry] }

/-- `check_fqdn_name_entry`: the entry of a marked record is queued and leaves the map; a full
queue stops the walk. -/
def checkFqdnNameEntry (h : FqdnHdl) (entry : NameEntry) : FqdnHdl × Option NameEntry × Bool :=
  if (h.record entry.r).flag &&& fqdnRecordToDelete ≠ 0 then
    match enqueueFqdnNameToDel h entry with
    | some h => (h, none, false)
    | none => (h, some entry, true)
  else (h, some entry, false)

/-- `check_fqdn_ipv4_entry`: the items of records being deleted move to `del_rlist`; an entry left
with none is queued and leaves the map, and a full queue stops the walk. -/
def checkFqdnIpv4Entry (h : FqdnHdl) (entry : Ipv4Entry) : FqdnHdl × Option Ipv4Entry × Bool :=
  let kept : Ipv4Entry := { entry with rlist := entry.rlist.filter fun r => !h.deleted r }
  let h := { h with delRlist := h.delRlist ++ entry.rlist.filter h.deleted }
  if kept.rlist = [] then
    match enqueueFqdnIpv4ToDel h kept with
    | some h => (h, none, false)
    | none => (h, some kept, true)
  else (h, some kept, false)

def freeFqdnIpv4 (h : FqdnHdl) : FqdnHdl := { h with delIpv4List := [] }

def freeFqdnRecord (h : FqdnHdl) (entry : NameEntry) : FqdnHdl :=
  let code := (h.record entry.r).code
  freeFqdnCode (h.modifyRecord entry.r fun rec =>
    { rec with iplist := [], ipCnt := rec.ipCnt - rec.iplist.length, freed := true }) code

def freeFqdnName (h : FqdnHdl) : FqdnHdl :=
  { h.delNameList.foldl freeFqdnRecord h with delNameList := [], delRlist := [] }

/-- A round of the `do ... while (ctx.more)` loop of `dpi_fqdn_entry_delete_marked`: the walk of
`fqdn_ipv4_map`, and `free_fqdn_ipv4` if it queued entries. -/
def ipv4Round (h : FqdnHdl) : FqdnHdl × Bool :=
  let (h', ipv4Map, more) := MapWalk.walk checkFqdnIpv4Entry h.ipv4Map h
  let h' := { h' with ipv4Map := ipv4Map }
  (if h'.delIpv4List.length > 0 then freeFqdnIpv4 h' else h', more)

/-- A round of the `while (more)` loop of `dpi_fqdn_entry_delete_marked`: the walk of
`fqdn_name_map`, and if it queued entries, the walks of `fqdn_ipv4_map` and `free_fqdn_name`. -/
def deleteMarkedRound (h : FqdnHdl) : FqdnHdl × Bool :=
  let (h', nameMap, more) := MapWalk.walk checkFqdnNameEntry h.nameMap h
  let h' := { h' with nameMap := nameMap }
  (if h'.delNameList.length > 0 then
    freeFqdnName (MapWalk.repeatWhile ipv4Round (h'.ipv4Map.length + 1) h')
  else h', more)

/-- `dpi_fqdn_entry_delete_marked`. A round that asks for another has filled a queue from an
empty one, so the fuel, one above the size of the map the loop empties, is never used up
(`deleteMarked_finishes`). -/
def dpiFqdnEntryDeleteMarked (h : FqdnHdl) : FqdnHdl :=
  MapWalk.repeatWhile deleteMarkedRound (h.nameMap.length + 1) h

inductive FqdnEvent
  | config (name : List Char) (ip : UInt32) (vh : Bool)
  | snoop (name : List Char) (ips : List UInt32)
  | markDelete (name : List Char)
  | deleteMarked

def fqdnStep (h : FqdnHdl) : FqdnEvent → FqdnHdl
  | .config name ip vh => (configFqdnIpv4Mapping h name ip vh).1
  | .snoop name ips => snoopedFqdnIpv4Mapping h name ips
  | .markDelete name => dpiFqdnEntryMarkDelete h name
  | .deleteMarked => dpiFqdnEntryDeleteMarked h

/-- The handle after the events, from `dpi_fqdn_hdl_init`. -/
def fqdnRun (events : List FqdnEvent) : FqdnHdl := events.foldl fqdnStep dpiFqdnHdlInit

end MicroSegment.Dpi
