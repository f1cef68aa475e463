import ClashMeta.Basic
import ClashMeta.Lib.Reader

/-!
# The lazy VLESS response header (protocol/src/vless.rs:219-286)

A VLESS server answers with a version byte, the length of an addon area and that
area; its payload follows. `ResponseStream` strips this header while it is read.
The inner stream is any state with a `poll` function.

`ResponseStream.reads` is the result later modules use: over an inner reader of
`bytes`, the stream is a reader of `stripResponse bytes`.
-/

namespace ClashMeta.Vless

open List Reader

/-- `ResponseStream`. `header` is the part of the two-byte header read so far
(`header[..header_read]`). -/
structure ResponseStream (σ : Type*) where
  inner : σ
  header : List Byte
  discard : Nat
  ready : Bool
  failed : Bool

namespace ResponseStream

variable {σ : Type*}

/-- `ResponseStream::new`. -/
def new (inner : σ) : ResponseStream σ where
  inner := inner
  header := []
  discard := 0
  ready := false
  failed := false

section

variable (poll : σ → Nat → Poll IoError (List Byte) × σ)

/-- The loop that reads the header (vless.rs:247-263). -/
def readHeader (rs : ResponseStream σ) : Poll IoError Unit × ResponseStream σ :=
  match Reader.pull poll 2 (2 - rs.header.length) (2 - rs.header.length) rs.inner with
  | (.pending, bytes, inner) => (.pending, { rs with inner, header := rs.header ++ bytes })
  | (.failed e, bytes, inner) => (.failed e, { rs with inner, header := rs.header ++ bytes })
  | (.ready false, bytes, inner) =>
    (.failed .unexpectedEof, { rs with inner, header := rs.header ++ bytes })
  | (.ready true, bytes, inner) =>
    let header := rs.header ++ bytes
    if header.getD 0 0 ≠ 0 then
      (.failed (.other "unsupported VLESS response version"),
        { rs with inner, header, failed := true })
    else (.ready (), { rs with inner, header, discard := (header.getD 1 0).toNat })

/-- The loop that skips the addon area (vless.rs:264-272). -/
def skipAddons (rs : ResponseStream σ) : Poll IoError Unit × ResponseStream σ :=
  if rs.ready then (.ready (), rs)
  else
    match Reader.pull poll 255 rs.discard rs.discard rs.inner with
    | (.pending, bytes, inner) =>
      (.pending, { rs with inner, discard := rs.discard - bytes.length })
    | (.failed e, bytes, inner) =>
      (.failed e, { rs with inner, discard := rs.discard - bytes.length })
    | (.ready false, bytes, inner) =>
      (.failed .unexpectedEof, { rs with inner, discard := rs.discard - bytes.length })
    | (.ready true, bytes, inner) =>
      (.ready (), { rs with inner, discard := rs.discard - bytes.length })

/-- `poll_read` behind the header (vless.rs:273-274). -/
def readPayload (rs : ResponseStream σ) (n : Nat) :
    Poll IoError (List Byte) × ResponseStream σ :=
  ((poll rs.inner n).1, { rs with inner := (poll rs.inner n).2, ready := true })

/-- `poll_read` once the header is there. -/
def pollBody (rs : ResponseStream σ) (n : Nat) : Poll IoError (List Byte) × ResponseStream σ :=
  match rs.skipAddons poll with
  | (.pending, rs) => (.pending, rs)
  | (.failed e, rs) => (.failed e, rs)
  | (.ready (), rs) => rs.readPayload poll n

/-- `ResponseStream::poll_read` (vless.rs:235-275). -/
def pollRead (rs : ResponseStream σ) (n : Nat) : Poll IoError (List Byte) × ResponseStream σ :=
  if n = 0 then (.ready [], rs)
  else if rs.failed then (.failed (.other "invalid VLESS response"), rs)
  else if rs.header.length < 2 then
    match rs.readHeader poll with
    | (.pending, rs) => (.pending, rs)
    | (.failed e, rs) => (.failed e, rs)
    | (.ready (), rs) => rs.pollBody poll n
  else rs.pollBody poll n

end

end ResponseStream

/-- What follows an addon area of `k` bytes. -/
def stripAddons (k : Nat) (bytes : List Byte) (fin : Finish) : List Byte × Finish :=
  if bytes.length < k then ([], .error) else (bytes.drop k, fin)

/-- What follows the response header at the front of `bytes`. -/
def stripResponse (bytes : List Byte) (fin : Finish) : List Byte × Finish :=
  match bytes with
  | version :: addons :: rest =>
    if version ≠ 0 then ([], .error) else stripAddons addons.toNat rest fin
  | _ => ([], .error)

variable {bytes : List Byte}

theorem stripAddons_short {k : Nat} (h : bytes.length < k) (fin : Finish) :
    stripAddons k bytes fin = ([], .error) := if_pos h

theorem stripAddons_drop {k j : Nat} (hk : j ≤ k) (hj : j ≤ bytes.length) (fin : Finish) :
    stripAddons (k - j) (bytes.drop j) fin = stripAddons k bytes fin := by
  unfold stripAddons
  rw [length_drop, drop_drop, Nat.add_sub_cancel' hk]
  by_cases h : bytes.length < k
  · rw [if_pos h, if_pos (by omega)]
  · rw [if_neg h, if_neg (by omega)]

theorem stripResponse_short (h : bytes.length < 2) (fin : Finish) :
    stripResponse bytes fin = ([], .error) := by
  match bytes, h with
  | [], _ | [_], _ => rfl

namespace ResponseStream

variable {σ : Type*} {poll : σ → Nat → Poll IoError (List Byte) × σ}
  {I : σ → List Byte → Finish → Nat → Prop}

/-- What a `ResponseStream` stands for, by how far it has come. -/
inductive Strips (I : σ → List Byte → Finish → Nat → Prop) (rs : ResponseStream σ) :
    List Byte → Finish → Nat → Prop where
  | failed (m : Nat) (hfailed : rs.failed = true) : Strips I rs [] .error m
  | header (bytes : List Byte) (fin : Finish) (m : Nat) (hfailed : rs.failed = false)
      (hready : rs.ready = false) (hheader : rs.header.length < 2)
      (h : I rs.inner bytes fin m) :
      Strips I rs (stripResponse (rs.header ++ bytes) fin).1
        (stripResponse (rs.header ++ bytes) fin).2 m
  | addons (bytes : List Byte) (fin : Finish) (m : Nat) (hfailed : rs.failed = false)
      (hready : rs.ready = false) (hheader : rs.header.length = 2)
      (h : I rs.inner bytes fin m) :
      Strips I rs (stripAddons rs.discard bytes fin).1 (stripAddons rs.discard bytes fin).2 m
  | payload (bytes : List Byte) (fin : Finish) (m : Nat) (hfailed : rs.failed = false)
      (hready : rs.ready = true) (hheader : rs.header.length = 2)
      (h : I rs.inner bytes fin m) : Strips I rs bytes fin m

variable {fin : Finish} {m n : Nat} {rs : ResponseStream σ}

theorem Strips.replace {out : List Byte} {s : σ} (h : Strips I rs out fin m)
    (hs : ∀ {bytes fin m}, I rs.inner bytes fin m → I s bytes fin m) :
    Strips I { rs with inner := s } out fin m := by
  cases h with
  | failed m hfailed => exact .failed m hfailed
  | header bytes fin m hfailed hready hheader h =>
    exact .header bytes fin m hfailed hready hheader (hs h)
  | addons bytes fin m hfailed hready hheader h =>
    exact .addons bytes fin m hfailed hready hheader (hs h)
  | payload bytes fin m hfailed hready hheader h =>
    exact .payload out fin m hfailed hready hheader (hs h)

variable {bytes : List Byte}

theorem readPayload_step (hR : Reads poll I) (rs : ResponseStream σ)
    (hfailed : rs.failed = false) (hheader : rs.header.length = 2) (h : I rs.inner bytes fin m)
    (hn : 0 < n) : Step (Strips I) bytes fin m n (rs.readPayload poll n) :=
  (hR.step h hn).map (fun s => { rs with inner := s, ready := true }) fun h' =>
    .payload _ _ _ hfailed rfl hheader h'

/-- Polling goes on through the addons. -/
theorem pollBody_addons (hR : Reads poll I) (rs : ResponseStream σ)
    (hfailed : rs.failed = false) (hready : rs.ready = false) (hheader : rs.header.length = 2)
    (h : I rs.inner bytes fin m) (hn : 0 < n) :
    Step (Strips I) (stripAddons rs.discard bytes fin).1
      (stripAddons rs.discard bytes fin).2 m n (rs.pollBody poll n) := by
  have hpull := hR.pull 255 (by omega) (Nat.le_refl rs.discard) h
  unfold pollBody skipAddons
  rw [if_neg (by simp [hready])]
  generalize Reader.pull poll 255 rs.discard rs.discard rs.inner = r at hpull ⊢
  -- at the end of the stream the area stays short
  have hend : ∀ {s : σ} {fin' : Finish}, bytes.length < rs.discard → I s [] fin' 0 →
      Strips I { rs with inner := s, discard := rs.discard - bytes.length } [] .error 0 := by
    intro s fin' hlt h'
    have hs : Strips I { rs with inner := s, discard := rs.discard - bytes.length } _ _ 0 :=
      .addons [] fin' 0 hfailed hready hheader h'
    rwa [stripAddons_short (Nat.sub_pos_of_lt hlt)] at hs
  cases hpull with
  | full s k hle hk h' =>
    rw [stripAddons, if_neg (by omega)]
    exact (readPayload_step hR { rs with inner := s, discard := _ } hfailed hheader h' hn).mono
      (by omega)
  | pending j s k hj hlt hk h' =>
    dsimp only
    rw [length_take_of_le hj, ← stripAddons_drop (le_of_lt hlt) hj]
    exact .pending _ k (by omega) (.addons _ _ _ hfailed hready hheader h')
  | short s hlt hfin h' | error e s hlt hfin h' =>
    rw [stripAddons_short hlt]
    exact .error _ _ rfl rfl (hend hlt h')

/-- Polling goes on through the header. -/
theorem pollRead_header (hR : Reads poll I) (hfailed : rs.failed = false)
    (hready : rs.ready = false) (hheader : rs.header.length < 2) (h : I rs.inner bytes fin m)
    (hn : 0 < n) :
    Step (Strips I) (stripResponse (rs.header ++ bytes) fin).1
      (stripResponse (rs.header ++ bytes) fin).2 m n (rs.pollRead poll n) := by
  have hpull := hR.pull 2 (by omega) (Nat.le_refl (2 - rs.header.length)) h
  unfold pollRead readHeader
  rw [if_neg (by omega), if_neg (by simp [hfailed]), if_pos hheader]
  generalize Reader.pull poll 2 (2 - rs.header.length) (2 - rs.header.length) rs.inner = r
    at hpull ⊢
  -- at the end of the stream the header stays short
  have hend : ∀ {s : σ} {fin' : Finish}, bytes.length < 2 - rs.header.length → I s [] fin' 0 →
      Strips I { rs with inner := s, header := rs.header ++ bytes } [] .error 0 := by
    intro s fin' hlt h'
    have hlen : (rs.header ++ bytes).length < 2 := by rw [length_append]; omega
    have hs : Strips I { rs with inner := s, header := rs.header ++ bytes } _ _ 0 :=
      .header [] fin' 0 hfailed hready hlen h'
    rwa [stripResponse_short (by simpa using hlen)] at hs
  cases hpull with
  | full s k hle hk h' =>
    have hlen : (rs.header ++ bytes.take (2 - rs.header.length)).length = 2 := by
      rw [length_append, length_take]
      omega
    rw [append_take_drop _ _ (2 - rs.header.length)]
    dsimp only
    generalize rs.header ++ bytes.take (2 - rs.header.length) = header at hlen ⊢
    obtain ⟨version, addons, rfl⟩ := length_eq_two.mp hlen
    by_cases hversion : version = 0
    · simp only [stripResponse, cons_append, nil_append, hversion, ne_eq,
        not_true_eq_false, if_false, getD_cons_zero, getD_cons_succ]
      exact (pollBody_addons hR ⟨s, [0, addons], addons.toNat, rs.ready, rs.failed⟩
        hfailed hready rfl h' hn).mono (by omega)
    · simp only [stripResponse, cons_append, nil_append, hversion, ne_eq,
        not_false_eq_true, if_true, getD_cons_zero]
      exact .error _ _ rfl rfl (.failed 0 rfl)
  | pending j s k hj hlt hk h' =>
    rw [append_take_drop _ _ j]
    refine .pending _ k (by omega) (.header _ _ _ hfailed hready ?_ h')
    rw [length_append, length_take]
    omega
  | short s hlt hfin h' | error e s hlt hfin h' =>
    rw [stripResponse_short (by rw [length_append]; omega)]
    exact .error _ _ rfl rfl (hend hlt h')

/-- **The stream reads what follows the response header**, over any inner reader. -/
theorem reads (hR : Reads poll I) : Reads (pollRead poll) (Strips I) where
  noRoom _ := rfl
  step {rs out fin m n} h hn := by
    cases h with
    | failed m hfailed =>
      rw [pollRead, if_neg (by omega), if_pos hfailed]
      exact .error _ _ rfl rfl (.failed 0 hfailed)
    | header bytes fin m hfailed hready hheader h =>
      exact pollRead_header hR hfailed hready hheader h hn
    | addons bytes fin m hfailed hready hheader h =>
      rw [pollRead, if_neg (by omega), if_neg (by simp [hfailed]), if_neg (by omega)]
      exact pollBody_addons hR rs hfailed hready hheader h hn
    | payload bytes fin m hfailed hready hheader h =>
      rw [pollRead, if_neg (by omega), if_neg (by simp [hfailed]), if_neg (by omega), pollBody,
        skipAddons, if_pos hready]
      exact readPayload_step hR rs hfailed hheader h hn

/-- A new stream has the whole header to strip. -/
theorem strips_new {s : σ} (h : I s bytes fin m) :
    Strips I (new s) (stripResponse bytes fin).1 (stripResponse bytes fin).2 m :=
  .header bytes fin m rfl rfl Nat.zero_lt_two h

/-- A complete header has the version 0, or the stream has failed. -/
def Versioned (rs : ResponseStream σ) : Prop :=
  rs.header.length = 2 → rs.failed = false → rs.header.getD 0 0 = 0

theorem pollRead_spec {P Q : σ → Prop} (hP : ∀ s n, P s → P (poll s n).2)
    (hQ : ∀ s n, (poll s n).1 = .pending → Q (poll s n).2) (h : P rs.inner) (n : Nat) :
    P (rs.pollRead poll n).2.inner ∧ (Versioned rs → Versioned (rs.pollRead poll n).2) ∧
      ((rs.pollRead poll n).1 = .pending →
        (rs.pollRead poll n).2.failed = false ∧ Q (rs.pollRead poll n).2.inner) := by
  -- behind the header: the addons are skipped, then the payload is read
  have hbody : ∀ rs : ResponseStream σ, P rs.inner → rs.failed = false →
      P (rs.pollBody poll n).2.inner ∧ (Versioned rs → Versioned (rs.pollBody poll n).2) ∧
        ((rs.pollBody poll n).1 = .pending →
          (rs.pollBody poll n).2.failed = false ∧ Q (rs.pollBody poll n).2.inner) := by
    intro rs h hfailed
    unfold pollBody skipAddons
    by_cases hready : rs.ready = true
    · rw [if_pos hready]
      exact ⟨hP _ n h, fun hv => hv, fun hp => ⟨hfailed, hQ _ n hp⟩⟩
    · rw [if_neg hready]
      have hpull := pull_spec hP hQ 255 (Nat.le_refl rs.discard) h
      generalize Reader.pull poll 255 rs.discard rs.discard rs.inner = r at hpull ⊢
      obtain ⟨r, bytes, s⟩ := r
      match r with
      | .pending => exact ⟨hpull.1, fun hv => hv, fun _ => ⟨hfailed, hpull.2.2 rfl⟩⟩
      | .failed _ | .ready false => exact ⟨hpull.1, fun hv => hv, nofun⟩
      | .ready true => exact ⟨hP _ n hpull.1, fun hv => hv, fun hp => ⟨hfailed, hQ _ n hp⟩⟩
  unfold pollRead readHeader
  split
  · exact ⟨h, fun hv => hv, nofun⟩
  split
  · exact ⟨h, fun hv => hv, nofun⟩
  rename_i hfailed
  rw [Bool.not_eq_true] at hfailed
  split
  · rename_i hshort
    have hpull := pull_spec hP hQ 2 (Nat.le_refl (2 - rs.header.length)) h
    generalize Reader.pull poll 2 (2 - rs.header.length) (2 - rs.header.length) rs.inner = r
      at hpull ⊢
    obtain ⟨r, bytes, s⟩ := r
    have hless : r ≠ .ready true → (rs.header ++ bytes).length ≠ 2 := fun hne heq => by
      have hlt := hpull.2.1 hne
      rw [length_append] at heq
      dsimp only at hlt
      omega
    match r with
    | .pending =>
      exact ⟨hpull.1, fun _ hl => absurd hl (hless nofun), fun _ => ⟨hfailed, hpull.2.2 rfl⟩⟩
    | .failed _ | .ready false =>
      exact ⟨hpull.1, fun _ hl => absurd hl (hless nofun), nofun⟩
    | .ready true =>
      by_cases hversion : (rs.header ++ bytes).getD 0 0 = 0
      · simp only [hversion, ne_eq, not_true_eq_false, if_false]
        obtain ⟨hkept, hnext, hwaits⟩ :=
          hbody { rs with inner := s, header := _, discard := _ } hpull.1 hfailed
        exact ⟨hkept, fun _ => hnext fun _ _ => hversion, hwaits⟩
      · simp only [hversion, ne_eq, not_false_eq_true, if_true]
        exact ⟨hpull.1, fun _ _ => nofun, nofun⟩
  · exact hbody rs h hfailed

end ResponseStream

end ClashMeta.Vless
