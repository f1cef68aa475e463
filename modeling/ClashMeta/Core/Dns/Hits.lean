import ClashMeta.Core.Dns.Bookkeeping
import Mathlib.Order.Bounds.Basic

/-!
# Hits of the DNS cache

`Resolver::cached_exchange` (core/src/dns.rs:286-374) for any number of calls at the same
time: a call makes its key, looks into the cache, asks upstream on a miss, and puts the
response into the cache. Upstream answers with any message, or fails, after any time; the
clock may say anything at each reading.

The state also keeps the fetches that have ended, which the source does not.
-/

namespace ClashMeta.Dns

open List

/-! ## The lifetime of a response -/

namespace Message

/-- The times that bound the life of a response: for a negative one those of its SOA records,
otherwise the TTLs of all records. -/
def Bounds (response : Message) : Set Nat :=
  if response.negative then
    {t | ∃ r ∈ response.nameServers, ∃ minimum, r.data = .soa minimum ∧
      t = min r.ttl.toNat minimum.toNat}
  else {t | ∃ r ∈ response.answers ++ response.nameServers ++ response.additionals,
    t = r.ttl.toNat}

/-- A response lives for the least of these times, and for an hour at most. -/
def Lasts (response : Message) (seconds : Nat) : Prop :=
  ∃ least, IsLeast response.Bounds least ∧ seconds = min least 3600

theorem isLeast_leastTtl {ttls : List UInt32} (h : 0 < leastTtl ttls) :
    IsLeast {t | ∃ ttl ∈ ttls, t = ttl.toNat} (leastTtl ttls) := by
  unfold leastTtl at h ⊢
  cases hmin : (ttls.map UInt32.toNat).min? with
  | none =>
    rw [hmin] at h
    cases h
  | some least =>
    obtain ⟨hmem, hle⟩ := List.min?_eq_some_iff.mp hmin
    obtain ⟨ttl, httl, heq⟩ := mem_map.mp hmem
    refine ⟨⟨ttl, httl, heq.symm⟩, ?_⟩
    rintro t ⟨other, hother, rfl⟩
    exact hle _ (mem_map_of_mem hother)

theorem soaTtl_eq_some {r : Record} {ttl : UInt32} :
    soaTtl r = some ttl ↔ ∃ minimum, r.data = .soa minimum ∧ ttl = min r.ttl minimum := by
  unfold soaTtl
  constructor
  · intro h
    split at h
    · rename_i minimum hdata
      cases h
      exact ⟨minimum, hdata, rfl⟩
    · cases h
  · rintro ⟨minimum, hdata, rfl⟩
    rw [hdata]

variable {response : Message}

theorem bounds_of_negative (h : response.negative) :
    response.Bounds =
      {t | ∃ ttl ∈ response.nameServers.filterMap soaTtl, t = ttl.toNat} := by
  unfold Bounds
  rw [if_pos h]
  ext t
  constructor
  · rintro ⟨r, hr, minimum, hdata, rfl⟩
    exact ⟨min r.ttl minimum, mem_filterMap.mpr
      ⟨r, hr, soaTtl_eq_some.mpr ⟨minimum, hdata, rfl⟩⟩, (UInt32.toNat_min _ _).symm⟩
  · rintro ⟨ttl, httl, rfl⟩
    obtain ⟨r, hr, hsome⟩ := mem_filterMap.mp httl
    obtain ⟨minimum, hdata, rfl⟩ := soaTtl_eq_some.mp hsome
    exact ⟨r, hr, minimum, hdata, UInt32.toNat_min _ _⟩

theorem bounds_of_positive (h : response.negative ≠ true) :
    response.Bounds = {t | ∃ ttl ∈ (response.answers ++ response.nameServers ++
      response.additionals).map Record.ttl, t = ttl.toNat} := by
  unfold Bounds
  rw [if_neg h]
  ext t
  constructor
  · rintro ⟨r, hr, rfl⟩
    exact ⟨r.ttl, mem_map_of_mem hr, rfl⟩
  · rintro ⟨ttl, httl, rfl⟩
    obtain ⟨r, hr, rfl⟩ := mem_map.mp httl
    exact ⟨r, hr, rfl⟩

theorem Lasts.soa {seconds : Nat} (h : response.Lasts seconds) (hneg : response.negative) :
    ∃ r ∈ response.nameServers, ∃ minimum, r.data = .soa minimum := by
  obtain ⟨least, ⟨hmem, -⟩, -⟩ := h
  unfold Bounds at hmem
  rw [if_pos hneg] at hmem
  obtain ⟨r, hr, minimum, hdata, -⟩ := hmem
  exact ⟨r, hr, minimum, hdata⟩

/-- **The lifetime that the resolver computes**, when it is not zero. -/
theorem lasts_lifetime (h : 0 < response.lifetime) : response.Lasts response.lifetime := by
  unfold lifetime at h ⊢
  by_cases hneg : response.negative = true
  · rw [if_pos hneg] at h ⊢
    refine ⟨_, ?_, min_comm _ _⟩
    rw [bounds_of_negative hneg]
    exact isLeast_leastTtl (by omega)
  · rw [if_neg hneg] at h ⊢
    refine ⟨_, ?_, min_comm _ _⟩
    rw [bounds_of_positive hneg]
    exact isLeast_leastTtl (by omega)

end Message

/-! ## The message of a hit -/

/-- A record some seconds later: its TTL is that much less, and zero at the least. -/
structure Record.Aged (elapsed : Nat) (old new : Record) : Prop where
  ttl : new.ttl.toNat = old.ttl.toNat - elapsed
  data : new.data = old.data
  rest : new.rest = old.rest

/-- A message with another id, some seconds later. -/
structure Message.Reissued (elapsed : Nat) (id : UInt16) (old new : Message) : Prop where
  id : new.id = id
  queries : new.queries = old.queries
  responseCode : new.responseCode = old.responseCode
  truncated : new.truncated = old.truncated
  answers : old.answers.Forall₂ (Record.Aged elapsed) new.answers
  nameServers : old.nameServers.Forall₂ (Record.Aged elapsed) new.nameServers
  additionals : old.additionals.Forall₂ (Record.Aged elapsed) new.additionals
  rest : new.rest = old.rest

theorem Record.aged_aged (elapsed : Nat) (r : Record) :
    r.Aged elapsed (r.aged (min elapsed (2 ^ 32 - 1))) := by
  have hlt := r.ttl.toNat_lt
  refine ⟨?_, rfl, rfl⟩
  show (UInt32.ofNat (r.ttl.toNat - min elapsed (2 ^ 32 - 1))).toNat = _
  rw [UInt32.toNat_ofNat_of_lt' (by simp only [UInt32.size]; omega)]
  omega

theorem reissued_serve (e : CacheEntry) (id : UInt16) (now : Nat) :
    e.response.Reissued ((now - e.inserted) / second) id (Cache.serve e id now) := by
  have hall : ∀ records : List Record, records.Forall₂
      (Record.Aged ((now - e.inserted) / second))
      (records.map (Record.aged (min ((now - e.inserted) / second) (2 ^ 32 - 1)))) := by
    intro records
    rw [forall₂_map_right_iff, forall₂_same]
    exact fun r _ => r.aged_aged _
  exact ⟨rfl, rfl, rfl, rfl, hall _, hall _, hall _, rfl⟩

/-! ## Calls -/

namespace Lookups

/-- Where a `cached_exchange` is. -/
inductive Phase where
  /-- The key is made. -/
  | started (request : Message) (key : List Byte)
  /-- The cache has no response. -/
  | missed (request : Message) (key : List Byte)
  /-- Upstream has answered. -/
  | fetched (request : Message) (key : List Byte) (response : Message)
  deriving DecidableEq

/-- The request and the key of a call. -/
def Phase.origin : Phase → Message × List Byte
  | .started request key => (request, key)
  | .missed request key => (request, key)
  | .fetched request key _ => (request, key)

/-- A fetch that has ended, with the readings of the clock at its insertion. -/
structure Fetch where
  request : Message
  response : Message
  moments : Cache.Moments

/-- The cache, the calls in progress by their numbers, and the fetches that have ended. -/
structure State where
  cache : Cache
  calls : Table Nat Phase
  fetches : List Fetch

/-- The steps of the calls, and what others do to the cache. -/
inductive Act where
  | request (call : Nat) (message : Message)
  /-- The entry is checked at one moment and its age taken at another. -/
  | look (call : Nat) (now later : Nat)
  /-- Upstream answers, or fails. -/
  | answer (call : Nat) (response : Option Message)
  | store (call : Nat) (policy : Nat) (moments : Cache.Moments)
  | clear
  | reorder (entries : Table (List Byte) CacheEntry)

section

variable [DnsWire] (s : State)

/-- The response that the cache has for a request (dns.rs:291-310). -/
def State.hit (request : Message) (key : List Byte) (now later : Nat) : Option Message :=
  (s.cache.fresh key now).map fun e => Cache.serve e request.id later

/-- A call goes on. -/
def State.put (i : Nat) (p : Phase) : State := { s with calls := s.calls.insert i p }

/-- A call returns. -/
def State.drop (i : Nat) : State := { s with calls := s.calls.erase i }

/-- A call makes its key (dns.rs:288-290); without one it returns an error. -/
def request (i : Nat) (message : Message) : State :=
  match cacheKey message with
  | .ok key => s.put i (.started message key)
  | .error _ => s

/-- The look into the cache. -/
def look (i : Nat) (request : Message) (key : List Byte) (now later : Nat) : State :=
  match s.hit request key now later with
  | some _ => s.drop i
  | none => s.put i (.missed request key)

/-- The exchange with upstream (dns.rs:311). -/
def answer (i : Nat) (request : Message) (key : List Byte) : Option Message → State
  | some response => s.put i (.fetched request key response)
  | none => s.drop i

/-- The response may go into the cache, and is returned (dns.rs:312-373). -/
def store (i : Nat) (request : Message) (key : List Byte) (response : Message) (policy : Nat)
    (moments : Cache.Moments) : State :=
  match s.cache.store key response policy moments with
  | .ok cache =>
    { s.drop i with cache := cache, fetches := ⟨request, response, moments⟩ :: s.fetches }
  | .error _ => s.drop i

/-- One step. -/
def step : Act → Option State
  | .request i message => if s.calls.lookup i = none then some (request s i message) else none
  | .look i now later =>
    match s.calls.lookup i with
    | some (.started request key) => some (look s i request key now later)
    | _ => none
  | .answer i response =>
    match s.calls.lookup i with
    | some (.missed request key) => some (answer s i request key response)
    | _ => none
  | .store i policy moments =>
    match s.calls.lookup i with
    | some (.fetched request key response) => some (store s i request key response policy moments)
    | _ => none
  | .clear => (s.cache.access .clear).map fun cache => { s with cache := cache }
  | .reorder entries =>
    (s.cache.access (.reorder entries)).map fun cache => { s with cache := cache }

/-- Any number of calls on a cache that starts empty. -/
def system : Lts State Act := ⟨⟨.empty, ∅, []⟩, step⟩

end

/-! ## Where entries come from -/

section

variable [DnsWire] {s t : State} {a : Act}

/-- The entry of a key comes from a fetch. -/
structure Comes (f : Fetch) (key : List Byte) (e : CacheEntry) : Prop where
  key : cacheKey f.request = .ok key
  cacheable : f.response.cacheable = true
  response : e.response = f.response
  inserted : e.inserted = f.moments.inserted
  expires : e.expires = f.moments.expires + f.response.lifetime * second

/-- Calls have the keys of their requests, and entries come from fetches. -/
structure Inv (s : State) : Prop where
  calls : ∀ i p, s.calls.lookup i = some p → cacheKey p.origin.1 = .ok p.origin.2
  entries : ∀ key e, s.cache.entries.lookup key = some e → ∃ f ∈ s.fetches, Comes f key e

theorem inv_init : Inv system.init :=
  ⟨fun i p h => (by cases h), fun key e h => (by cases h)⟩

theorem Inv.put (h : Inv s) (i : Nat) {p : Phase} (hp : cacheKey p.origin.1 = .ok p.origin.2) :
    Inv (s.put i p) := by
  refine ⟨fun j q hq => ?_, h.entries⟩
  rcases Table.lookup_insert_cases hq with ⟨-, rfl⟩ | ⟨-, hq⟩
  · exact hp
  · exact h.calls j q hq

theorem Inv.drop (h : Inv s) (i : Nat) : Inv (s.drop i) :=
  ⟨fun j q hq => h.calls j q (Table.lookup_erase_some hq).2, h.entries⟩

theorem Inv.request (h : Inv s) (i : Nat) (message : Message) : Inv (request s i message) := by
  unfold Lookups.request
  split
  · rename_i key hkey
    exact h.put i hkey
  · exact h

variable {key : List Byte} {request : Message} {i : Nat}

theorem Inv.look (h : Inv s) (hcall : s.calls.lookup i = some (.started request key))
    (now later : Nat) : Inv (look s i request key now later) := by
  unfold Lookups.look
  split
  · exact h.drop i
  · have hkey := h.calls i _ hcall
    exact h.put i hkey

theorem Inv.answer (h : Inv s) (hcall : s.calls.lookup i = some (.missed request key))
    (response : Option Message) : Inv (answer s i request key response) := by
  cases response with
  | none => exact h.drop i
  | some response =>
    have hkey := h.calls i _ hcall
    exact h.put i hkey

/-- **An insertion** adds an entry of its own fetch. -/
theorem Inv.store (h : Inv s) {response : Message}
    (hcall : s.calls.lookup i = some (.fetched request key response)) (policy : Nat)
    (moments : Cache.Moments) : Inv (store s i request key response policy moments) := by
  unfold Lookups.store
  split
  · rename_i cache hstore
    refine ⟨(h.drop i).calls, fun k e he => ?_⟩
    rcases Cache.lookup_of_store hstore he with hold | ⟨rfl, hcacheable, hresponse, hinserted,
      hexpires, -⟩
    · obtain ⟨f, hf, hcomes⟩ := h.entries k e hold
      exact ⟨f, mem_cons_of_mem _ hf, hcomes⟩
    · exact ⟨_, mem_cons_self, h.calls i _ hcall, hcacheable, hresponse, hinserted, hexpires⟩
  · exact h.drop i

theorem Inv.reorder (h : Inv s) {entries : Table (List Byte) CacheEntry}
    (hperm : entries.entries.Perm s.cache.entries.entries) :
    Inv { s with cache := { s.cache with entries := entries } } := by
  refine ⟨h.calls, fun key e he => h.entries key e ?_⟩
  exact Table.mem_entries_iff.mp (hperm.subset (Table.mem_entries_iff.mpr he))

/-- **One step.** -/
theorem Inv.step (h : Inv s) (hstep : step s a = some t) : Inv t := by
  -- a call at another point has no such step
  cases a with
  | request i message =>
    rw [Lookups.step] at hstep
    split at hstep
    · cases hstep
      exact h.request i message
    · cases hstep
  | look i now later =>
    rw [Lookups.step] at hstep
    split at hstep
    · rename_i request key hcall
      cases hstep
      exact h.look hcall now later
    · cases hstep
  | answer i response =>
    rw [Lookups.step] at hstep
    split at hstep
    · rename_i request key hcall
      cases hstep
      exact h.answer hcall response
    · cases hstep
  | store i policy moments =>
    rw [Lookups.step] at hstep
    split at hstep
    · rename_i request key response hcall
      cases hstep
      exact h.store hcall policy moments
    · cases hstep
  | clear =>
    cases hstep
    exact ⟨h.calls, fun key e he => (by cases he)⟩
  | reorder entries =>
    rw [Lookups.step, Cache.access] at hstep
    split at hstep
    · rename_i hperm
      cases hstep
      exact h.reorder hperm
    · cases hstep

end

section

variable [DnsWire] {s t : State} {a : Act}

/-- **Hits of the DNS cache are faithful and never stale.** After any run of `cached_exchange`
calls, with any requests, upstream responses and times: when a call is served from the cache,
some fetch has ended whose request has the same encoding without its id; the response of that
fetch was not truncated, has the code `NoError` or `NXDomain`, an SOA record if it is negative,
and a lifetime that is not zero; the lifetime had not passed since the reading of the clock with
which it went into the cache; and the message served is the one fetched with the id of the new
request, each TTL reduced by the whole seconds that have passed. -/
theorem cache_hits_faithful (s : State) (h : system.Reaches Lts.anyStep system.init s)
    {i : Nat} {request : Message} {key : List Byte}
    (hcall : s.calls.lookup i = some (.started request key)) {now later : Nat}
    {response : Message} (hhit : s.hit request key now later = some response) :
    ∃ f ∈ s.fetches, cacheKey f.request = cacheKey request ∧
      f.response.truncated = false ∧
      (f.response.responseCode = .noError ∨ f.response.responseCode = .nxDomain) ∧
      (f.response.negative = true →
        ∃ r ∈ f.response.nameServers, ∃ minimum, r.data = .soa minimum) ∧
      (∃ lifetime, f.response.Lasts lifetime ∧ 0 < lifetime ∧
        now < f.moments.expires + lifetime * second) ∧
      f.response.Reissued ((later - f.moments.inserted) / second) request.id response := by
  have hinv : Inv s := h.invariant inv_init fun hs _ hstep => hs.step hstep
  obtain ⟨e, hfresh, rfl⟩ := Option.map_eq_some_iff.mp hhit
  obtain ⟨hlookup, hexpires⟩ := Option.filter_eq_some_iff.mp hfresh
  obtain ⟨f, hf, hcomes⟩ := hinv.entries key e hlookup
  obtain ⟨hlifetime, htruncated, hcode⟩ := of_decide_eq_true hcomes.cacheable
  have hlasts := Message.lasts_lifetime hlifetime
  refine ⟨f, hf, hcomes.key.trans (hinv.calls i _ hcall).symm, htruncated, hcode, hlasts.soa,
    ⟨f.response.lifetime, hlasts, hlifetime, ?_⟩, ?_⟩
  · rw [← hcomes.expires]
    exact of_decide_eq_true hexpires
  · rw [← hcomes.response, ← hcomes.inserted]
    exact reissued_serve e request.id later

end

/-! ## A hit -/

section

/-- A stand-in for the wire form that keeps the id and the names of the queries. -/
local instance : DnsWire :=
  ⟨fun m => .ok (UInt8.ofNat m.id.toNat :: m.queries.flatten.map fun c => UInt8.ofNat c.toNat)⟩

/-- The same question under any id. -/
def ask (id : UInt16) : Message := { id := id, queries := ["example.com."] }

/-- A call from its request to its insertion, and a second one for the same name. -/
def again : List Act :=
  [.request 0 (ask 7), .look 0 0 0,
    .answer 0 (some { ask 7 with answers := [{ ttl := 60, data := .a 1 }] }),
    .store 0 0 ⟨fun _ => 0, 0, 0⟩, .request 1 (ask 9)]

/-- The key of both calls. -/
def askKey : List Byte := 0 :: "example.com.".toList.map fun c => UInt8.ofNat c.toNat

/-- Two seconds later the second call is served, with two seconds off the TTL. -/
theorem cache_hits_faithful_again :
    ∃ s f, system.Reaches Lts.anyStep system.init s ∧ f ∈ s.fetches ∧
      s.hit (ask 9) askKey (2 * second) (2 * second) =
        some { ask 9 with answers := [{ ttl := 58, data := .a 1 }] } ∧
      cacheKey f.request = cacheKey (ask 9) := by
  obtain ⟨s, hrun, htest⟩ : ∃ s, system.Reaches Lts.anyStep system.init s ∧
      decide (s.calls.lookup 1 = some (.started (ask 9) askKey) ∧
        s.hit (ask 9) askKey (2 * second) (2 * second) =
          some { ask 9 with answers := [{ ttl := 58, data := .a 1 }] }) = true :=
    Lts.run_any _ again (by decide +kernel)
  obtain ⟨hcall, hhit⟩ := of_decide_eq_true htest
  obtain ⟨f, hf, hkey, -⟩ := cache_hits_faithful s hrun hcall hhit
  exact ⟨s, f, hrun, hf, hhit, hkey⟩

end

end Lookups

end ClashMeta.Dns
