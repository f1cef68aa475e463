import ClashMeta.Basic
import ClashMeta.Lib.Checked
import ClashMeta.Lib.Table

/-!
# DNS messages and their cache

The cache of the resolver (core/src/dns.rs:23-33, 286-374). A message has the parts that
the resolver reads; its wire form is the `hickory_proto` crate's and enters as the parameter
`DnsWire`. Instants are numbers of nanoseconds.

A critical section asks for the time more than once; the answers are `Moments`.

An entry also remembers the number of the DNS policy under which its response was fetched.
The source keeps no such number: no result of a function here depends on it.
-/

namespace ClashMeta.Dns

/-- `RData`, with what the resolver reads of it. -/
inductive RData where
  | a (ip : BitVec 32)
  | aaaa (ip : BitVec 128)
  | soa (minimum : UInt32)
  | other (bytes : List Byte)
  deriving DecidableEq

/-- `Record`: `rest` stands for its name and class, which the resolver passes on. -/
structure Record where
  ttl : UInt32
  data : RData
  rest : List Byte := []
  deriving DecidableEq

/-- `ResponseCode`. -/
inductive ResponseCode where
  | noError
  | nxDomain
  | other (code : Nat)
  deriving DecidableEq

/-- `Message`: `rest` stands for the flags and sections that the resolver passes on. -/
structure Message where
  id : UInt16
  /-- The names of the queries, as text. -/
  queries : List Str
  responseCode : ResponseCode := .noError
  truncated : Bool := false
  answers : List Record := []
  nameServers : List Record := []
  additionals : List Record := []
  rest : List Byte := []
  deriving DecidableEq

/-- The wire form of messages. -/
class DnsWire where
  /-- `Message::to_vec`. -/
  toVec : Message → Except String (List Byte)

/-- `CacheEntry`. -/
structure CacheEntry where
  response : Message
  inserted : Nat
  expires : Nat
  size : Nat
  /-- The number of the DNS policy under which the response was fetched. -/
  policy : Nat
  deriving DecidableEq

/-- `Cache`. -/
structure Cache where
  entries : Table (List Byte) CacheEntry
  size : Nat

/-- `Cache::default`. -/
def Cache.empty : Cache := ⟨∅, 0⟩

/-- A second. -/
def second : Nat := 1000000000

/-- `record.set_ttl(record.ttl().saturating_sub(elapsed))`. -/
def Record.aged (elapsed : Nat) (r : Record) : Record :=
  { r with ttl := UInt32.ofNat (r.ttl.toNat - elapsed) }

namespace Cache

/-- The entry that is served for a key (dns.rs:293-295). -/
def fresh (c : Cache) (key : List Byte) (now : Nat) : Option CacheEntry :=
  (c.entries.lookup key).filter fun e => now < e.expires

/-- The response that is served from an entry (dns.rs:296-308). -/
def serve (e : CacheEntry) (id : UInt16) (now : Nat) : Message :=
  let elapsed := min ((now - e.inserted) / second) (2 ^ 32 - 1)
  { e.response with
    id := id
    answers := e.response.answers.map (Record.aged elapsed)
    nameServers := e.response.nameServers.map (Record.aged elapsed)
    additionals := e.response.additionals.map (Record.aged elapsed) }

/-- A key and its entry. -/
abbrev Slot := Sigma fun _ : List Byte => CacheEntry

/-- `min_by_key(|(_, entry)| entry.inserted)`: the first of the entries inserted earliest. -/
def oldest : List Slot → Option Slot
  | [] => none
  | e :: rest =>
    match oldest rest with
    | none => some e
    | some o => if o.2.inserted < e.2.inserted then some o else some e

/-- With a response of that size a limit would be exceeded (dns.rs:349). -/
def Exceeds (c : Cache) (size : Nat) : Prop :=
  4096 ≤ Table.size c.entries ∨ 8 * 1024 * 1024 < c.size + size

instance (c : Cache) (size : Nat) : Decidable (c.Exceeds size) :=
  inferInstanceAs (Decidable (_ ∨ _))

/-- The eviction loop (dns.rs:349-359). Every round removes an entry, so as many rounds as
there are entries are enough. -/
def evict (size : Nat) : Nat → Cache → Cache
  | 0, c => c
  | rounds + 1, c =>
    if c.Exceeds size then
      match oldest c.entries.entries with
      | none => c
      | some o => evict size rounds ⟨c.entries.erase o.1, c.size - o.2.size⟩
    else c

/-- What the clock says in the section that inserts: at the expiry of each old entry and at
the two readings for the new one. -/
structure Moments where
  retained : List Byte → Nat
  inserted : Nat
  expires : Nat

/-- The entries that an insertion keeps for now (dns.rs:344-347): those that have not expired
and belong to another key. -/
def live (c : Cache) (key : List Byte) (moments : Moments) : Table (List Byte) CacheEntry :=
  (Table.filterMap (fun k e => if moments.retained k < e.expires then some e else none)
    c.entries).erase key

/-- The sum of the sizes of some entries (dns.rs:348). -/
def total (entries : Table (List Byte) CacheEntry) : Nat :=
  ((Table.values entries).map CacheEntry.size).sum

/-- The critical section that inserts a response (dns.rs:343-371). -/
def insert (c : Cache) (key : List Byte) (response : Message) (lifetime size policy : Nat)
    (moments : Moments) : Cache :=
  let live := c.live key moments
  let c := evict size (Table.size live) ⟨live, total live⟩
  if size ≤ 8 * 1024 * 1024 then
    let expires := moments.expires + lifetime * second
    ⟨c.entries.insert key ⟨response, moments.inserted, expires, size, policy⟩, c.size + size⟩
  else c

end Cache

namespace Message

variable (response : Message)

/-- No such name, or no answer (dns.rs:312-313). -/
def negative : Bool := response.responseCode = .nxDomain ∨ response.answers = []

/-- The least of some TTLs, or zero. -/
def leastTtl (ttls : List UInt32) : Nat := ((ttls.map UInt32.toNat).min?).getD 0

/-- The SOA lifetime of an authority record. -/
def soaTtl (r : Record) : Option UInt32 :=
  match r.data with
  | .soa minimum => some (min r.ttl minimum)
  | _ => none

/-- The lifetime of a response in seconds (dns.rs:314-334). -/
def lifetime : Nat :=
  min 3600 (if response.negative then leastTtl (response.nameServers.filterMap soaTtl)
    else leastTtl ((response.answers ++ response.nameServers ++ response.additionals).map
      Record.ttl))

/-- The response goes into the cache (dns.rs:335-341). -/
def cacheable : Bool :=
  0 < response.lifetime ∧ response.truncated = false ∧
    (response.responseCode = .noError ∨ response.responseCode = .nxDomain)

end Message

section

variable [DnsWire]

/-- The cache key of a request (dns.rs:288-290): its wire form without its id. -/
def cacheKey (request : Message) : Except String (List Byte) :=
  DnsWire.toVec { request with id := 0 }

/-- What `cached_exchange` does with a fetched response (dns.rs:312-373): the response is
returned, unless it cannot be measured, and the cache may take it in. -/
def Cache.store (c : Cache) (key : List Byte) (response : Message) (policy : Nat)
    (moments : Cache.Moments) : Except String Cache :=
  if response.cacheable then do
    let wire ← DnsWire.toVec response
    return c.insert key response response.lifetime (key.length + wire.length) policy moments
  else return c

end

/-! ## What an insertion leaves -/

namespace Cache

variable {c : Cache} {key k : List Byte} {e : CacheEntry}

variable {size policy : Nat}

theorem lookup_of_evict {rounds : Nat} (h : (evict size rounds c).entries.lookup k = some e) :
    c.entries.lookup k = some e := by
  induction rounds generalizing c with
  | zero => exact h
  | succ rounds ih =>
    rw [evict] at h
    split at h
    · split at h
      · exact h
      · exact (Table.lookup_erase_some (ih h)).2
    · exact h

variable {moments : Moments}

theorem lookup_of_live (h : (c.live key moments).lookup k = some e) :
    k ≠ key ∧ c.entries.lookup k = some e := by
  obtain ⟨hne, hkept⟩ := Table.lookup_erase_some h
  rw [Table.lookup_filterMap] at hkept
  obtain ⟨e', he', hkeep⟩ := Option.bind_eq_some_iff.mp hkept
  split at hkeep
  · cases hkeep
    exact ⟨hne, he'⟩
  · cases hkeep

variable {response : Message}

/-- **An insertion adds nothing but its own entry.** -/
theorem lookup_of_insert {lifetime : Nat}
    (h : (c.insert key response lifetime size policy moments).entries.lookup k = some e) :
    c.entries.lookup k = some e ∨ k = key ∧
      e = ⟨response, moments.inserted, moments.expires + lifetime * second, size, policy⟩ := by
  unfold insert at h
  split at h
  · rcases Table.lookup_insert_cases h with ⟨rfl, rfl⟩ | ⟨-, h⟩
    · exact .inr ⟨rfl, rfl⟩
    · exact .inl (lookup_of_live (lookup_of_evict h)).2
  · exact .inl (lookup_of_live (lookup_of_evict h)).2

theorem lookup_of_store [DnsWire] {c' : Cache} (h : c.store key response policy moments = .ok c')
    (he : c'.entries.lookup k = some e) :
    c.entries.lookup k = some e ∨ k = key ∧ response.cacheable = true ∧
      e.response = response ∧ e.inserted = moments.inserted ∧
      e.expires = moments.expires + response.lifetime * second ∧ e.policy = policy := by
  unfold store at h
  split at h
  · rename_i hcacheable
    obtain ⟨wire, -, h⟩ := Except.bind_eq_ok_iff.mp h
    cases h
    rcases lookup_of_insert he with hold | ⟨hk, rfl⟩
    · exact .inl hold
    · exact .inr ⟨hk, hcacheable, rfl, rfl, rfl, rfl⟩
  · cases h
    exact .inl he

end Cache

end ClashMeta.Dns
