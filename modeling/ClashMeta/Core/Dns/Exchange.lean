import ClashMeta.Core.Dns.Hits
import ClashMeta.Core.Dns.Resolver

/-!
# DNS exchanges across a policy change

`Resolver::cached_exchange` (core/src/dns.rs:286-409) looks into the cache, reads the
nameserver policy, asks the upstreams of the policy one after the other, and puts the
response into the cache. `Resolver::configure` (dns.rs:84-140) installs a policy and clears
the cache. Each lock is taken and given back on its own, so these are separate steps, and any
number of calls run in between.

Policies are counted in the order of their installation; the one of the start has number 0.
-/

namespace ClashMeta.Dns

open Table Option

namespace Exchange

/-- Where a `cached_exchange` is. -/
inductive Phase where
  /-- The key is made. -/
  | started (request : Message) (key : List Byte)
  /-- The cache has no response. -/
  | missed (request : Message) (key : List Byte)
  /-- The policy of that number is read, and these upstreams are left. -/
  | querying (request : Message) (key : List Byte) (policy : Nat) (servers : List Str)
  /-- An upstream has answered. -/
  | fetched (request : Message) (key : List Byte) (policy : Nat) (response : Message)

/-- Where a `configure` is. -/
inductive Update where
  /-- The policy is built. -/
  | built (policy : DnsPolicy)
  /-- It is installed under that number. -/
  | installed (number : Nat)
  /-- The cache is cleared. -/
  | cleared (number : Nat)

/-- A response served from the cache. -/
structure Served where
  response : Message
  /-- The number of the policy under which it was fetched. -/
  policy : Nat
  /-- The newest policy whose `configure` had returned. -/
  returned : Nat

/-- The resolver and the calls in progress. -/
structure State where
  resolver : Resolver
  exchanges : Table Nat Phase
  updates : Table Nat Update
  /-- The newest policy whose `configure` has cleared the cache. -/
  cleared : Nat
  /-- The newest policy whose `configure` has returned. -/
  returned : Nat
  served : List Served

/-- The steps of the calls, by the number of the call. -/
inductive Act where
  | request (call : Nat) (message : Message)
  /-- The entry is checked at one moment and its age taken at another. -/
  | look (call : Nat) (now later : Nat)
  | choose (call : Nat)
  /-- The next upstream answers, or fails. -/
  | answer (call : Nat) (response : Option Message)
  | store (call : Nat) (moments : Cache.Moments)
  | configure (call : Nat) (hosts : List (Str × Strings)) (resources : Resources)
  | install (call : Nat)
  | clear (call : Nat)
  | finish (call : Nat)
  /-- `network_changed` clears the cache. -/
  | networkChanged

section

variable [RuleText] [DnsWire] (config : ClashMeta.Dns) (s : State)

/-- The exchange goes on. -/
def State.put (i : Nat) (p : Phase) : State := { s with exchanges := s.exchanges.insert i p }

/-- The exchange returns. -/
def State.drop (i : Nat) : State := { s with exchanges := s.exchanges.erase i }

/-- A call starts with its key; without one it returns an error. -/
def request (i : Nat) (message : Message) : State :=
  match cacheKey message with
  | .ok key => s.put i (.started message key)
  | .error _ => s

/-- The look into the cache (dns.rs:291-310). -/
def look (i : Nat) (message : Message) (key : List Byte) (now later : Nat) : State :=
  match s.resolver.cache.fresh key now with
  | some e =>
    { s.drop i with served := ⟨Cache.serve e message.id later, e.policy, s.returned⟩ :: s.served }
  | none => s.put i (.missed message key)

/-- The policy is read (dns.rs:387-394). -/
def choose (i : Nat) (message : Message) (key : List Byte) : State :=
  s.put i (.querying message key s.resolver.installed (s.resolver.servers config message))

/-- An upstream answers, or the next one is asked, or none is left (dns.rs:395-408). -/
def answer (i : Nat) (message : Message) (key : List Byte) (policy : Nat) (servers : List Str)
    (response : Option Message) : State :=
  match servers, response with
  | [], _ => s.drop i
  | _ :: _, some response => s.put i (.fetched message key policy response)
  | _ :: servers, none => s.put i (.querying message key policy servers)

/-- The response may go into the cache, and is returned (dns.rs:312-373). -/
def store (i : Nat) (key : List Byte) (policy : Nat) (response : Message)
    (moments : Cache.Moments) : State :=
  match s.resolver.cache.store key response policy moments with
  | .ok cache => { s.drop i with resolver := { s.resolver with cache := cache } }
  | .error _ => s.drop i

/-- `configure` builds its policy, or returns an error (dns.rs:108-132). -/
def configure (j : Nat) (hosts : List (Str × Strings)) (resources : Resources) : State :=
  match buildPolicy config hosts resources with
  | .ok policy => { s with updates := s.updates.insert j (.built policy) }
  | .error _ => s

/-- The policy is replaced (dns.rs:133-137). -/
def install (j : Nat) (policy : DnsPolicy) : State :=
  { s with
    resolver := s.resolver.install policy
    updates := s.updates.insert j (.installed (s.resolver.install policy).installed) }

/-- The cache is cleared (dns.rs:138). -/
def clear (j number : Nat) : State :=
  { s with
    resolver := s.resolver.clearCache
    updates := s.updates.insert j (.cleared number)
    cleared := max s.cleared number }

/-- `configure` returns. -/
def finish (j number : Nat) : State :=
  { s with updates := s.updates.erase j, returned := max s.returned number }

/-- One step. -/
def step : Act → Option State
  | .request i message => if s.exchanges.lookup i = none then some (request s i message) else none
  | .look i now later =>
    match s.exchanges.lookup i with
    | some (.started message key) => some (look s i message key now later)
    | _ => none
  | .choose i =>
    match s.exchanges.lookup i with
    | some (.missed message key) => some (choose config s i message key)
    | _ => none
  | .answer i response =>
    match s.exchanges.lookup i with
    | some (.querying message key policy servers) =>
      some (answer s i message key policy servers response)
    | _ => none
  | .store i moments =>
    match s.exchanges.lookup i with
    | some (.fetched _ key policy response) => some (store s i key policy response moments)
    | _ => none
  | .configure j hosts resources =>
    if s.updates.lookup j = none then some (configure config s j hosts resources) else none
  | .install j =>
    match s.updates.lookup j with
    | some (.built policy) => some (install s j policy)
    | _ => none
  | .clear j =>
    match s.updates.lookup j with
    | some (.installed number) => some (clear s j number)
    | _ => none
  | .finish j =>
    match s.updates.lookup j with
    | some (.cleared number) => some (finish s j number)
    | _ => none
  | .networkChanged => some { s with resolver := s.resolver.clearCache }

/-- The exchanges and policy changes of a resolver that starts with an empty cache. -/
def system (policy : DnsPolicy) : Lts State Act where
  init := ⟨⟨policy, .empty, 0⟩, ∅, ∅, 0, 0, []⟩
  step := step config

/-- The condition on a step: a response that can go into the cache does so only while no
`configure` of a policy later than its own has cleared the cache. -/
def Timely : Act → Prop
  | .store i _ => ∀ message key policy response,
    s.exchanges.lookup i = some (.fetched message key policy response) →
      response.cacheable = true → s.cleared ≤ policy
  | _ => True

/-- What a step can do. -/
inductive Steps : Act → State → Prop
  | request {i : Nat} (message : Message) (h : s.exchanges.lookup i = none) :
      Steps (.request i message) (request s i message)
  | look {i : Nat} {message : Message} {key : List Byte} (now later : Nat)
      (h : s.exchanges.lookup i = some (.started message key)) :
      Steps (.look i now later) (look s i message key now later)
  | choose {i : Nat} {message : Message} {key : List Byte}
      (h : s.exchanges.lookup i = some (.missed message key)) :
      Steps (.choose i) (choose config s i message key)
  | answer {i : Nat} {message : Message} {key : List Byte} {policy : Nat} {servers : List Str}
      (response : Option Message)
      (h : s.exchanges.lookup i = some (.querying message key policy servers)) :
      Steps (.answer i response) (answer s i message key policy servers response)
  | store {i : Nat} {message : Message} {key : List Byte} {policy : Nat} {response : Message}
      (moments : Cache.Moments)
      (h : s.exchanges.lookup i = some (.fetched message key policy response)) :
      Steps (.store i moments) (store s i key policy response moments)
  | configure {j : Nat} (hosts : List (Str × Strings)) (resources : Resources) :
      Steps (.configure j hosts resources) (configure config s j hosts resources)
  | install {j : Nat} {policy : DnsPolicy} : Steps (.install j) (install s j policy)
  | clear {j number : Nat} : Steps (.clear j) (clear s j number)
  | finish {j number : Nat} (h : s.updates.lookup j = some (.cleared number)) :
      Steps (.finish j) (finish s j number)
  | networkChanged : Steps .networkChanged { s with resolver := s.resolver.clearCache }

variable {config s}

theorem step_cases {a : Act} {t : State} (h : step config s a = some t) : Steps config s a t := by
  cases a with
  | networkChanged =>
    cases h
    exact .networkChanged
  | _ =>
    rw [step] at h
    split at h
    · cases h
      constructor <;> assumption
    · cases h

end

/-! ## The calls on the cache -/

/-- What a call on the cache knows of an exchange. -/
def Phase.call : Phase → Lookups.Phase
  | started request key => .started request key
  | missed request key | querying request key _ _ => .missed request key
  | fetched request key _ response => .fetched request key response

/-- The exchanges and the calls on the cache are at the same points, over one cache. -/
structure Ties (s : State) (l : Lookups.State) : Prop where
  cache : l.cache = s.resolver.cache
  calls : ∀ i, l.calls.lookup i = (s.exchanges.lookup i).map Phase.call

section

variable {s t : State} {l : Lookups.State}

theorem Ties.put (h : Ties s l) (i : Nat) (p : Phase) : Ties (s.put i p) (l.put i p.call) := by
  refine ⟨h.cache, fun j => ?_⟩
  rw [Lookups.State.put, State.put, lookup_insert_if, lookup_insert_if]
  split
  · rfl
  · exact h.calls j

theorem Ties.drop (h : Ties s l) (i : Nat) : Ties (s.drop i) (l.drop i) := by
  refine ⟨h.cache, fun j => ?_⟩
  rw [Lookups.State.drop, State.drop, lookup_erase_if, lookup_erase_if]
  split
  · rfl
  · exact h.calls j

/-- Between a miss and its answer the call does not move. -/
theorem Ties.stay (h : Ties s l) {i : Nat} {p q : Phase} (hcall : s.exchanges.lookup i = some p)
    (hq : q.call = p.call) : Ties (s.put i q) l := by
  refine ⟨h.cache, fun j => ?_⟩
  rw [h.calls, State.put, lookup_insert_if]
  split
  · subst j
    rw [hcall, map_some, map_some, hq]
  · rfl

variable [RuleText] [DnsWire] {config : ClashMeta.Dns} {a : Act}

/-- A step of the exchanges is at most one step of the calls. -/
theorem Ties.step (h : Ties s l) (hstep : step config s a = some t) :
    ∃ l', Lookups.system.Reaches Lts.anyStep l l' ∧ Ties t l' := by
  have hone : ∀ b {l'}, Lookups.step l b = some l' → Lookups.system.Reaches Lts.anyStep l l' :=
    fun b _ hb => .single ⟨b, trivial, hb⟩
  have hat : ∀ {i p}, s.exchanges.lookup i = some p → l.calls.lookup i = some p.call := by
    intro i p hcall
    rw [h.calls, hcall]
    rfl
  -- choosing servers and asking the next one are no steps of a call
  cases step_cases hstep with
  | @request i message hcall =>
    refine ⟨_, hone (.request i message) (if_pos (by rw [h.calls, hcall]; rfl)), ?_⟩
    unfold Exchange.request Lookups.request
    cases cacheKey message with
    | ok key => exact h.put i _
    | error e => exact h
  | @look i message key now later hcall =>
    refine ⟨_, hone (.look i now later) (by rw [Lookups.step, hat hcall]; rfl), ?_⟩
    unfold Exchange.look Lookups.look Lookups.State.hit
    rw [h.cache]
    cases s.resolver.cache.fresh key now with
    | none => exact h.put i _
    | some e => exact ⟨(h.drop i).cache, (h.drop i).calls⟩
  | choose hcall => exact ⟨l, .refl, h.stay hcall rfl⟩
  | @answer i message key policy servers response hcall =>
    have hanswer : ∀ response, Lookups.step l (.answer i response) =
        some (Lookups.answer l i message key response) := fun response => by
      rw [Lookups.step, hat hcall]
      rfl
    cases servers with
    | nil => exact ⟨_, hone (.answer i none) (hanswer none), h.drop i⟩
    | cons server servers =>
      cases response with
      | none => exact ⟨l, .refl, h.stay hcall rfl⟩
      | some response => exact ⟨_, hone (.answer i response) (hanswer _), h.put i _⟩
  | @store i message key policy response moments hcall =>
    refine ⟨_, hone (.store i policy moments) (by rw [Lookups.step, hat hcall]; rfl), ?_⟩
    unfold Exchange.store Lookups.store
    rw [h.cache]
    cases s.resolver.cache.store key response policy moments with
    | ok cache => exact ⟨rfl, (h.drop i).calls⟩
    | error e => exact h.drop i
  | configure hosts resources =>
    refine ⟨l, .refl, ?_⟩
    unfold Exchange.configure
    split <;> exact ⟨h.cache, h.calls⟩
  | install | finish => exact ⟨l, .refl, h.cache, h.calls⟩
  | clear | networkChanged => exact ⟨_, hone .clear rfl, rfl, h.calls⟩

/-- **On the cache, every run of the exchanges is a run of the calls.** -/
theorem ties_reached {policy : DnsPolicy}
    (h : (system config policy).Reaches Lts.anyStep (system config policy).init s) :
    ∃ l, Lookups.system.Reaches Lts.anyStep Lookups.system.init l ∧ Ties s l := by
  have hinit : Ties (system config policy).init Lookups.system.init := ⟨rfl, fun _ => rfl⟩
  refine h.invariant (I := fun s => ∃ l, Lookups.system.Reaches Lts.anyStep Lookups.system.init l ∧
    Ties s l) ⟨_, .refl, hinit⟩ fun ⟨l, hl, hties⟩ _ hstep => ?_
  obtain ⟨l', hl', hties'⟩ := hties.step hstep
  exact ⟨l', hl.trans hl', hties'⟩

end

/-! ## What the steps keep -/

/-- Entries are at least as new as the last clearing, and what was served was at least as new as
the last return. -/
structure Inv (s : State) : Prop where
  entries : ∀ key e, s.resolver.cache.entries.lookup key = some e → s.cleared ≤ e.policy
  updates : ∀ j number, s.updates.lookup j = some (.cleared number) → number ≤ s.cleared
  returned : s.returned ≤ s.cleared
  served : ∀ x ∈ s.served, x.returned ≤ x.policy

section

variable {s : State}

section

variable (h : Inv s)

include h

theorem Inv.of_exchanges (exchanges : Table Nat Phase) : Inv { s with exchanges := exchanges } :=
  ⟨h.entries, h.updates, h.returned, h.served⟩

theorem Inv.request [DnsWire] (i : Nat) (message : Message) : Inv (request s i message) := by
  unfold Exchange.request
  split
  · exact h.of_exchanges _
  · exact h

/-- **A hit**: the entry is newer than the last clearing, and that is newer than the last
return. -/
theorem Inv.look (i : Nat) (message : Message) (key : List Byte) (now later : Nat) :
    Inv (look s i message key now later) := by
  unfold Exchange.look
  split
  · rename_i e hfresh
    obtain ⟨hlookup, -⟩ := filter_eq_some_iff.mp hfresh
    refine ⟨h.entries, h.updates, h.returned, ?_⟩
    rw [List.forall_mem_cons]
    exact ⟨h.returned.trans (h.entries key e hlookup), h.served⟩
  · exact h.of_exchanges _

theorem Inv.answer (i : Nat) (message : Message) (key : List Byte) (policy : Nat)
    (servers : List Str) (response : Option Message) :
    Inv (answer s i message key policy servers response) := by
  unfold Exchange.answer
  split <;> exact h.of_exchanges _

/-- **An insertion** that meets the condition. -/
theorem Inv.store [DnsWire] (i : Nat) (key : List Byte) {policy : Nat} {response : Message}
    (hpolicy : response.cacheable = true → s.cleared ≤ policy) (moments : Cache.Moments) :
    Inv (store s i key policy response moments) := by
  unfold Exchange.store
  split
  · rename_i cache hstore
    refine ⟨fun k e he => ?_, h.updates, h.returned, h.served⟩
    rcases Cache.lookup_of_store hstore he with hold | ⟨-, hcacheable, -, -, -, hnew⟩
    · exact h.entries k e hold
    · rw [hnew]
      exact hpolicy hcacheable
  · exact h.of_exchanges _

theorem Inv.putUpdate (j : Nat) {u : Update} (hu : ∀ number, u ≠ .cleared number) :
    Inv { s with updates := s.updates.insert j u } := by
  refine ⟨h.entries, fun k number hk => ?_, h.returned, h.served⟩
  rcases lookup_insert_cases hk with ⟨-, heq⟩ | ⟨-, hk⟩
  · exact absurd heq (hu number)
  · exact h.updates k number hk

theorem Inv.configure [RuleText] (config : ClashMeta.Dns) (j : Nat)
    (hosts : List (Str × Strings)) (resources : Resources) :
    Inv (configure config s j hosts resources) := by
  unfold Exchange.configure
  split
  · exact h.putUpdate j nofun
  · exact h

theorem Inv.install (j : Nat) (policy : DnsPolicy) : Inv (install s j policy) := by
  have hput := h.putUpdate j (u := .installed (s.resolver.install policy).installed)
    nofun
  exact ⟨h.entries, hput.updates, h.returned, h.served⟩

/-- **Clearing** leaves no entry that could be too old. -/
theorem Inv.clear (j number : Nat) : Inv (clear s j number) := by
  refine ⟨nofun, fun k n hk => ?_, ?_, h.served⟩
  · rcases lookup_insert_cases hk with ⟨-, heq⟩ | ⟨-, hk⟩
    · cases heq
      exact le_max_right _ _
    · exact (h.updates k n hk).trans (le_max_left _ _)
  · exact h.returned.trans (le_max_left _ _)

/-- **A return** comes behind its own clearing. -/
theorem Inv.finish (j : Nat) {number : Nat}
    (hnumber : s.updates.lookup j = some (.cleared number)) : Inv (finish s j number) := by
  refine ⟨h.entries, fun k n hk => ?_, ?_, h.served⟩
  · exact h.updates k n (lookup_erase_some hk).2
  · exact Nat.max_le.mpr ⟨h.returned, h.updates j number hnumber⟩

end

end

section

variable [RuleText] [DnsWire] {config : ClashMeta.Dns} {s t : State} {a : Act}

/-- **One step** that meets the condition. -/
theorem Inv.step (h : Inv s) (htimely : Timely s a) (hstep : step config s a = some t) : Inv t := by
  cases step_cases hstep with
  | request message hcall => exact h.request _ message
  | look now later hcall => exact h.look _ _ _ now later
  | choose hcall => exact h.of_exchanges _
  | answer response hcall => exact h.answer _ _ _ _ _ response
  | store moments hcall => exact h.store _ _ (htimely _ _ _ _ hcall) moments
  | configure hosts resources => exact h.configure config _ hosts resources
  | install => exact h.install _ _
  | clear => exact h.clear _ _
  | finish hcall => exact h.finish _ hcall
  | networkChanged => exact ⟨nofun, h.updates, h.returned, h.served⟩

/-- **A DNS policy change takes effect completely when insertions are timely.** For every
configuration of the resolver, every policy it starts with and any number of `cached_exchange` and
`configure` calls in any interleaving: if every response that can go into the cache does so
while no `configure` of a policy later than its own has cleared it, then every response served
from the cache was fetched under the newest policy whose `configure` had returned by then, or
under a later one. -/
theorem policy_change_complete (config : ClashMeta.Dns) (policy : DnsPolicy) (s : State)
    (h : (system config policy).Reaches Timely (system config policy).init s) :
    ∀ x ∈ s.served, x.returned ≤ x.policy := by
  have hinit : Inv (system config policy).init :=
    ⟨nofun, nofun, Nat.le_refl 0, nofun⟩
  exact (h.invariant hinit fun hinv htimely hstep => hinv.step htimely hstep).served

end

/-! ## An exchange across a policy change -/

section

/-- A stand-in for the wire form that keeps the names of the queries. -/
local instance : DnsWire := ⟨fun m => .ok (m.queries.flatten.map fun c => UInt8.ofNat c.toNat)⟩

/-- No text is known to the external parsers. -/
local instance : RuleText := .none

/-- One name has an upstream of its own. -/
def ownUpstream : ClashMeta.Dns :=
  { nameserverPolicy := [("example.com", .many ["tls://9.9.9.9"])]
    fakeIpFilter := [] }

/-- A question for one name. -/
def query : Message := { id := 7, queries := ["example.com."] }

/-- An answer to it that can be cached. -/
def reply : Message := { query with answers := [{ ttl := 60, data := .a 1 }] }

/-- Before `configure` the name has no upstream of its own. -/
def noPolicy : DnsPolicy := ⟨[], [], []⟩

/-- An exchange from beginning to end, up to its insertion. -/
def fetch : List Act := [.request 0 query, .look 0 0 0, .choose 0, .answer 0 (some reply)]

/-- A later exchange that looks into the cache. -/
def ask : List Act := [.request 2 query, .look 2 second second]

/-- A policy change from beginning to end. -/
def change : List Act := [.configure 1 [] .empty, .install 1, .clear 1, .finish 1]

/-- A response that was fetched after a policy change is served, under the policy that the
change has installed. -/
theorem policy_change_complete_fetch :
    ∃ s x, (system ownUpstream noPolicy).Reaches Timely (system ownUpstream noPolicy).init s ∧
      s.served = [x] ∧ x.policy = 1 ∧ x.returned = 1 ∧ x.returned ≤ x.policy := by
  have hfetch : ∀ a ∈ change ++ fetch, ∀ u, Timely u a := by simp [change, fetch, Timely]
  have hask : ∀ a ∈ ask, ∀ u, Timely u a := by simp [ask, Timely]
  have hfetched := Lts.run_reaches_of_forall (M := system ownUpstream noPolicy)
    (s := (system ownUpstream noPolicy).init) (change ++ fetch) hfetch rfl
  have hstored := hfetched.tail ⟨.store 0 ⟨fun _ => 0, 0, 0⟩, ?_, rfl⟩
  · have hs := hstored.trans (Lts.run_reaches_of_forall ask hask rfl)
    exact ⟨_, _, hs, rfl, rfl, rfl, policy_change_complete ownUpstream noPolicy _ hs _
      List.mem_cons_self⟩
  · intro message key policy response hcall _
    cases hcall
    exact Nat.le_refl 1

/-- The response of the earlier policy's upstream goes into the cache behind the clearing, and
is served after `configure` has returned. -/
theorem late_response_is_served :
    ∃ s x, (system ownUpstream noPolicy).Reaches Lts.anyStep (system ownUpstream noPolicy).init s ∧
      s.served = [x] ∧ x.policy = 0 ∧ x.returned = 1 ∧
      (system ownUpstream noPolicy).init.resolver.servers ownUpstream query =
        ["https://1.1.1.1/dns-query".toList] ∧
      s.resolver.servers ownUpstream query = ["tls://9.9.9.9".toList] := by
  refine ⟨_, _, Lts.run_reaches ([.request 0 query, .look 0 0 0, .choose 0] ++ change ++
    [.answer 0 (some reply), .store 0 ⟨fun _ => 0, 0, 0⟩] ++ ask) rfl, rfl, rfl, rfl, rfl, rfl⟩

end

end Exchange

end ClashMeta.Dns
