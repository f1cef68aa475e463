import Mathlib.Data.List.GetD
import ClashMeta.Lib.Slice
import ClashMeta.Protocol.WebSocket.Stream

/-!
# Looking for a frame, operation by operation

`parseFrame` reads the incoming buffer with total functions. `parseFrameIn` is the same code
(websocket.rs:213-254) with every index, slice and sum that may panic, in a build with overflow
checks or in one whose sums wrap. `parseFrameIn_eq` says that the two agree, and that the only
panic is the sum of header size and declared length past `usize::MAX`. A release build does not
notice the sum, and then fails on a slice that ends before it starts.
-/

namespace ClashMeta.WebSocket

open List Except Slice

/-! ## The operations -/

/-- The declared length and where the length field ends (websocket.rs:220-235); the
conversion of the 64-bit length to `usize` never fails on a 64-bit target. -/
def lengthFieldIn (incoming : List Byte) (second : Byte) : Except Panic (Option (Nat × Nat)) :=
  let short := (second &&& 0x7f).toNat
  if short = 126 then
    if incoming.length < 4 then .ok none
    else do
      let hi ← Slice.index incoming 2
      let lo ← Slice.index incoming 3
      return some (fromBe [hi, lo], 4)
  else if short = 127 then
    if incoming.length < 10 then .ok none
    else do
      let bytes ← Slice.range incoming 2 10
      return some (fromBe bytes, 10)
  else .ok (some (short, 2))

/-- The payload behind a header of `start` bytes, and its removal (websocket.rs:245-254). -/
def takeFrameIn (build : Build) (incoming : List Byte) (opcode : Byte) (mask : Option (List Byte))
    (start len : Nat) : Except Panic Parsed := do
  let stop ← Slice.add build (usizeMax + 1) start len
  if incoming.length < stop then return .incomplete
  else do
    let data ← Slice.range incoming start stop
    let _ ← Slice.upTo incoming stop
    return .frame opcode (mask.elim data fun mask => applyMask mask data) (incoming.drop stop)

/-- The masking key, if there is one, and what follows (websocket.rs:236-254). -/
def maskIn (build : Build) (incoming : List Byte) (opcode : Byte) (masked : Bool)
    (start len : Nat) : Except Panic Parsed :=
  if masked then do
    let stop ← Slice.add build (usizeMax + 1) start 4
    if incoming.length < stop then return .incomplete
    else do
      let mask ← Slice.range incoming start stop
      takeFrameIn build incoming opcode (some mask) stop len
  else takeFrameIn build incoming opcode none start len

/-- `WsStream::parse_frame` up to the match on the opcode, every operation checked. -/
def parseFrameIn (build : Build) (incoming : List Byte) : Except Panic Parsed :=
  if incoming.length < 2 then .ok .incomplete
  else do
    let first ← Slice.index incoming 0
    let second ← Slice.index incoming 1
    let field ← lengthFieldIn incoming second
    match field with
    | none => return .incomplete
    | some (len, start) =>
      maskIn build incoming (first &&& 0x0f) (second &&& 0x80 != 0) start len

/-- Where a build panics on the sum past `usize::MAX`. -/
def overflowPanic : Build → Panic
  | .debug => .overflow
  | .release => .bounds

/-- The outcome of `parseFrame` as a run of a build. -/
def Parsed.run (build : Build) : Parsed → Except Panic Parsed
  | .panicked => .error (overflowPanic build)
  | p => .ok p

/-! ## Both models agree -/

theorem fromBe_lt (bytes : List Byte) : fromBe bytes < 256 ^ bytes.length := by
  induction bytes using List.reverseRecOn with
  | nil => exact one_pos
  | append_singleton bytes b ih =>
    have hb := b.toNat_lt
    unfold fromBe at ih ⊢
    rw [foldl_append, length_append, length_singleton]
    simp only [foldl_cons, foldl_nil]
    omega

variable {incoming : List Byte}

theorem lengthField_some {len start : Nat} (h : lengthField incoming = some (len, start))
    (h2 : 2 ≤ incoming.length) : len ≤ usizeMax ∧ start ≤ 10 ∧ start ≤ incoming.length := by
  dsimp only [lengthField] at h
  split at h
  · split at h
    · cases h
    · cases h
      have hlt := fromBe_lt ((incoming.drop 2).take 2)
      rw [length_take, length_drop, min_eq_left (by omega)] at hlt
      unfold usizeMax
      omega
  · split at h
    · split at h
      · cases h
      · cases h
        have hlt := fromBe_lt ((incoming.drop 2).take 8)
        rw [length_take, length_drop, min_eq_left (by omega)] at hlt
        unfold usizeMax
        omega
    · cases h
      have hlt := (incoming.getD 1 0 &&& 0x7f).toNat_lt
      unfold usizeMax
      omega

theorem lengthFieldIn_eq (incoming : List Byte) :
    lengthFieldIn incoming (incoming.getD 1 0) = .ok (lengthField incoming) := by
  unfold lengthFieldIn lengthField
  dsimp only
  split
  · split
    · rfl
    · rename_i hlen
      have htwo : (incoming.drop 2).take 2 = [incoming[2], incoming[3]] := by
        rw [drop_eq_getElem_cons (by omega), drop_eq_getElem_cons (by omega)]
        rfl
      rw [index_of_lt (by omega), index_of_lt (by omega), htwo]
      rfl
  · split
    · split
      · rfl
      · rw [range_of_le (by omega) (by omega)]
        rfl
    · rfl

theorem takeFrameIn_eq (build : Build) {start : Nat} (opcode : Byte) (mask : Option (List Byte))
    {len : Nat} (hstart : start ≤ incoming.length) (hlen : len ≤ usizeMax)
    (hsmall : start ≤ usizeMax) :
    takeFrameIn build incoming opcode mask start len =
      if usizeMax < start + len then .error (overflowPanic build)
      else if incoming.length < start + len then .ok .incomplete
      else .ok (.frame opcode
        (mask.elim ((incoming.drop start).take len) fun m =>
          applyMask m ((incoming.drop start).take len)) (incoming.drop (start + len))) := by
  unfold takeFrameIn
  by_cases hover : usizeMax < start + len
  · rw [if_pos hover]
    cases build with
    | debug =>
      have hadd : Slice.add .debug (usizeMax + 1) start len = .error .overflow := by
        unfold Slice.add
        rw [if_neg (by omega)]
      rw [hadd]
      rfl
    | release =>
      -- the sum wraps to a number below `start`, inside the buffer
      have hmod : (start + len) % (usizeMax + 1) = start + len - (usizeMax + 1) := by
        rw [Nat.mod_eq_sub_mod (by omega), Nat.mod_eq_of_lt (by omega)]
      have hadd : Slice.add .release (usizeMax + 1) start len =
          .ok (start + len - (usizeMax + 1)) := by
        unfold Slice.add
        rw [if_neg (by omega), hmod]
      rw [hadd, ok_bind, if_neg (by omega), range_of_lt (by omega)]
      rfl
  · rw [if_neg hover, add_of_lt (by omega), ok_bind]
    by_cases hshort : incoming.length < start + len
    · rw [if_pos hshort, if_pos hshort]
      rfl
    · rw [if_neg hshort, if_neg hshort, range_of_le (by omega) (by omega),
        upTo_of_le (by omega), Nat.add_sub_cancel_left]
      rfl

/-- **Both models agree**, in either build. -/
theorem parseFrameIn_eq (build : Build) (incoming : List Byte) :
    parseFrameIn build incoming = (parseFrame incoming).run build := by
  unfold parseFrameIn parseFrame
  by_cases h2 : incoming.length < 2
  · rw [if_pos h2, if_pos h2]
    rfl
  have h0 : incoming.getD 0 0 = incoming[0] := by
    rw [getD_eq_getElem _ _ (by omega)]
  have h1 : incoming.getD 1 0 = incoming[1] := by
    rw [getD_eq_getElem _ _ (by omega)]
  have hfield := lengthFieldIn_eq incoming
  rw [h1] at hfield
  rw [if_neg h2, if_neg h2, index_of_lt (by omega), index_of_lt (by omega), h0, h1,
    ok_bind, ok_bind, hfield, ok_bind]
  cases hlength : lengthField incoming with
  | none => rfl
  | some field =>
    obtain ⟨len, start⟩ := field
    obtain ⟨hlen, hten, hin⟩ := lengthField_some hlength (by omega)
    -- a header is short, so only the sum with the length can overflow
    have hsmall : start + 4 ≤ usizeMax := by
      unfold usizeMax
      omega
    dsimp only
    rw [if_neg (by omega)]
    unfold maskIn
    by_cases hmasked : (incoming[1] &&& 0x80 != 0) = true
    · rw [if_pos hmasked, add_of_lt (by omega), ok_bind]
      by_cases hmissing : incoming.length < start + 4
      · rw [if_pos hmissing, if_pos ⟨hmasked, hmissing⟩]
        rfl
      · rw [if_neg hmissing, if_neg (fun h => hmissing h.2),
          range_of_le (by omega) (by omega), Nat.add_sub_cancel_left, ok_bind,
          takeFrameIn_eq build _ _ (by omega) hlen hsmall]
        split
        · rfl
        · split <;> rfl
    · rw [if_neg hmasked, if_neg (fun h => hmasked h.1),
        takeFrameIn_eq build _ _ hin hlen (by omega)]
      split
      · rfl
      · split <;> rfl

/-! ## What a buffer declares -/

/-- The size of the extended length field. -/
def extendedSize (incoming : List Byte) : Nat :=
  if (incoming.getD 1 0 &&& 0x7f).toNat = 126 then 2
  else if (incoming.getD 1 0 &&& 0x7f).toNat = 127 then 8
  else 0

/-- The size of the header that the first two bytes announce. -/
def headerSize (incoming : List Byte) : Nat :=
  2 + extendedSize incoming + if incoming.getD 1 0 &&& 0x80 != 0 then 4 else 0

/-- The payload length that the header declares. -/
def declaredLength (incoming : List Byte) : Nat :=
  if extendedSize incoming = 0 then (incoming.getD 1 0 &&& 0x7f).toNat
  else fromBe ((incoming.drop 2).take (extendedSize incoming))

/-- The size of the declared frame. -/
def frameSize (incoming : List Byte) : Nat := headerSize incoming + declaredLength incoming

/-- The header is there. -/
def HeaderThere (incoming : List Byte) : Prop :=
  2 ≤ incoming.length ∧ headerSize incoming ≤ incoming.length

/-- The declared frame is there. -/
def Complete (incoming : List Byte) : Prop :=
  HeaderThere incoming ∧ frameSize incoming ≤ incoming.length

/-- The header is there, and the frame it declares is longer than `usize::MAX`. -/
def Overlong (incoming : List Byte) : Prop :=
  HeaderThere incoming ∧ usizeMax < frameSize incoming

/-- The opcodes `parse_frame` knows. -/
def Supported (opcode : Byte) : Prop := opcode ∈ [0, 2, 8, 9, 10]

theorem lengthField_eq (incoming : List Byte) :
    lengthField incoming =
      if incoming.length < 2 + extendedSize incoming ∧ extendedSize incoming ≠ 0 then none
      else some (declaredLength incoming, 2 + extendedSize incoming) := by
  unfold declaredLength
  dsimp only [lengthField, extendedSize]
  split
  · simp
  · split
    · simp
    · simp

/-- What the parser makes of a buffer. -/
inductive Verdict (incoming : List Byte) : Parsed → Prop where
  | waits (hshort : ¬ Complete incoming) (hsmall : ¬ Overlong incoming) :
      Verdict incoming .incomplete
  | panics (hover : Overlong incoming) : Verdict incoming .panicked
  | takes (data : List Byte) (hthere : Complete incoming) (hsmall : ¬ Overlong incoming) :
      Verdict incoming (.frame (incoming.getD 0 0 &&& 0x0f) data
        (incoming.drop (frameSize incoming)))

theorem parseFrame_verdict (incoming : List Byte) : Verdict incoming (parseFrame incoming) := by
  have hwaits : ¬ HeaderThere incoming → Verdict incoming .incomplete := fun h =>
    .waits (fun hc => h hc.1) (fun hc => h hc.1)
  unfold parseFrame
  by_cases h2 : incoming.length < 2
  · rw [if_pos h2]
    exact hwaits fun h => absurd h.1 (by omega)
  rw [if_neg h2]
  cases hlength : lengthField incoming with
  | none =>
    refine hwaits fun h => ?_
    have hle := h.2
    rw [lengthField_eq] at hlength
    split at hlength
    · rename_i hmissing
      unfold headerSize at hle
      omega
    · cases hlength
  | some field =>
    obtain ⟨len, start⟩ := field
    obtain ⟨hlen, -, hin⟩ := lengthField_some hlength (by omega)
    obtain ⟨rfl, rfl⟩ : declaredLength incoming = len ∧ 2 + extendedSize incoming = start := by
      rw [lengthField_eq] at hlength
      split at hlength
      · cases hlength
      · cases hlength
        exact ⟨rfl, rfl⟩
    dsimp only
    rw [if_neg (by omega)]
    -- with the mask bit the header is four bytes longer
    have hstart : (if (incoming.getD 1 0 &&& 0x80 != 0) = true then 2 + extendedSize incoming + 4
        else 2 + extendedSize incoming) = headerSize incoming := by
      unfold headerSize
      split <;> rfl
    rw [hstart]
    by_cases hmask : (incoming.getD 1 0 &&& 0x80 != 0) = true ∧
        incoming.length < 2 + extendedSize incoming + 4
    · rw [if_pos hmask]
      refine hwaits fun h => ?_
      have hle := h.2
      rw [← hstart, if_pos hmask.1] at hle
      omega
    · have hheader : HeaderThere incoming := by
        refine ⟨by omega, ?_⟩
        rw [← hstart]
        split
        · rename_i hmasked
          exact not_lt.mp fun hlt => hmask ⟨hmasked, hlt⟩
        · exact hin
      rw [if_neg hmask]
      by_cases hover : usizeMax < headerSize incoming + declaredLength incoming
      · rw [if_pos hover]
        exact .panics ⟨hheader, hover⟩
      · have hsmall : ¬ Overlong incoming := fun h => hover h.2
        rw [if_neg hover]
        by_cases hshort : incoming.length < headerSize incoming + declaredLength incoming
        · rw [if_pos hshort]
          exact .waits (fun h => absurd h.2 (not_le.mpr hshort)) hsmall
        · rw [if_neg hshort]
          exact .takes _ ⟨hheader, not_lt.mp hshort⟩ hsmall

theorem parseFrame_overlong (hover : Overlong incoming) : parseFrame incoming = .panicked := by
  have hverdict := parseFrame_verdict incoming
  generalize parseFrame incoming = p at hverdict ⊢
  cases hverdict with
  | waits _ hsmall | takes _ _ hsmall => exact absurd hover hsmall
  | panics _ => rfl

theorem parseFrame_short (hsmall : ¬ Overlong incoming) (hshort : ¬ Complete incoming) :
    parseFrame incoming = .incomplete := by
  have hverdict := parseFrame_verdict incoming
  generalize parseFrame incoming = p at hverdict ⊢
  cases hverdict with
  | waits _ _ => rfl
  | panics hover => exact absurd hover hsmall
  | takes _ hthere _ => exact absurd hthere hshort

theorem parseFrame_there (hsmall : ¬ Overlong incoming) (hthere : Complete incoming) :
    ∃ data, parseFrame incoming =
      .frame (incoming.getD 0 0 &&& 0x0f) data (incoming.drop (frameSize incoming)) := by
  have hverdict := parseFrame_verdict incoming
  generalize parseFrame incoming = p at hverdict ⊢
  cases hverdict with
  | waits hshort _ => exact absurd hthere hshort
  | panics hover => exact absurd hover hsmall
  | takes data _ _ => exact ⟨data, rfl⟩

/-! ## Safety -/

/-- Looking for a frame in `ws` panics nowhere; it waits, with nothing changed, while the
declared frame is incomplete, refuses a complete frame with an unknown opcode, and otherwise
takes exactly the frame. -/
structure ParsesSafely (build : Build) (ws : WsStream) : Prop where
  runs : ∃ p, parseFrameIn build ws.incoming = .ok p
  waits : ¬ Complete ws.incoming → ws.parseFrame = (.ok false, ws)
  refuses : Complete ws.incoming → ¬ Supported (ws.incoming.getD 0 0 &&& 0x0f) →
    ws.parseFrame.1 = .error (.io (.other "unsupported WebSocket frame"))
  takes : Complete ws.incoming → Supported (ws.incoming.getD 0 0 &&& 0x0f) →
    ws.parseFrame.1 = .ok true ∧
      ws.parseFrame.2.incoming = ws.incoming.drop (frameSize ws.incoming)

theorem Parsed.run_ok {p : Parsed} (build : Build) (h : p ≠ .panicked) : p.run build = .ok p := by
  cases p with
  | panicked => exact absurd rfl h
  | incomplete | oversized | frame opcode data rest => rfl

theorem parseFrame_ne_panicked (hsmall : ¬ Overlong incoming) :
    parseFrame incoming ≠ .panicked := by
  intro h
  have hverdict := parseFrame_verdict incoming
  rw [h] at hverdict
  cases hverdict with
  | panics hover => exact hsmall hover

theorem parseFrame_handles {ws : WsStream} {opcode : Byte} {data rest : List Byte}
    (h : WebSocket.parseFrame ws.incoming = .frame opcode data rest) :
    (Supported opcode → ws.parseFrame.1 = .ok true) ∧
      (¬ Supported opcode →
        ws.parseFrame.1 = .error (.io (.other "unsupported WebSocket frame"))) ∧
      ws.parseFrame.2.incoming = rest := by
  unfold WsStream.parseFrame Supported
  rw [h]
  dsimp only
  split
  · rename_i hdata
    exact ⟨fun _ => rfl, fun hnot => (hnot (by rcases hdata with rfl | rfl <;> decide)).elim, rfl⟩
  split
  · rename_i hclose
    exact ⟨fun _ => rfl, fun hnot => (hnot (by rw [hclose]; decide)).elim, rfl⟩
  split
  · rename_i hping
    exact ⟨fun _ => rfl, fun hnot => (hnot (by rw [hping]; decide)).elim, rfl⟩
  split
  · rename_i hpong
    exact ⟨fun _ => rfl, fun hnot => (hnot (by rw [hpong]; decide)).elim, rfl⟩
  · rename_i hdata hclose hping hpong
    refine ⟨fun hmem => ?_, fun _ => rfl, rfl⟩
    simp only [mem_cons, not_mem_nil, or_false] at hmem
    tauto

/-- **Looking for a frame is safe** exactly outside overlong declarations. -/
theorem parseFrame_safe_iff (build : Build) (ws : WsStream) :
    ParsesSafely build ws ↔ ¬ Overlong ws.incoming := by
  constructor
  · rintro ⟨⟨p, hp⟩, -, -, -⟩ hover
    rw [parseFrameIn_eq, parseFrame_overlong hover] at hp
    cases hp
  · intro hsmall
    refine ⟨?_, ?_, ?_, ?_⟩
    · exact ⟨_, by rw [parseFrameIn_eq, Parsed.run_ok build (parseFrame_ne_panicked hsmall)]⟩
    · intro hshort
      unfold WsStream.parseFrame
      rw [parseFrame_short hsmall hshort]
    · intro hthere hunknown
      obtain ⟨data, hframe⟩ := parseFrame_there hsmall hthere
      exact (parseFrame_handles hframe).2.1 hunknown
    · intro hthere hknown
      obtain ⟨data, hframe⟩ := parseFrame_there hsmall hthere
      exact ⟨(parseFrame_handles hframe).1 hknown, (parseFrame_handles hframe).2.2⟩

/-- The header of a binary frame that declares `2 ^ 64 - 1` bytes. -/
def overlongHeader : List Byte := [0x82, 0x7f, 255, 255, 255, 255, 255, 255, 255, 255]

/-- An upgraded stream that has received it. -/
def overlongStream : WsStream :=
  { WsStream.new ⟨⟨[], .silent⟩, ⟨[], [], false⟩⟩ false none (fun _ => Vector.replicate 4 0) with
    upgraded := true
    incoming := overlongHeader }

/-- Ten bytes from the server stop the client: the sum of header size and declared length
overflows, or wraps and leaves a slice that ends before it starts. -/
theorem overlong_header_panics :
    parseFrameIn .debug overlongStream.incoming = .error .overflow ∧
      parseFrameIn .release overlongStream.incoming = .error .bounds ∧
      overlongStream.parseFrame.1 = .error .panic ∧
      ¬ ParsesSafely .debug overlongStream ∧ ¬ ParsesSafely .release overlongStream := by
  have hdebug : parseFrameIn .debug overlongHeader = .error .overflow := by decide
  have hrelease : parseFrameIn .release overlongHeader = .error .bounds := by decide
  refine ⟨hdebug, hrelease, rfl, ?_, ?_⟩
  · rintro ⟨⟨p, hp⟩, -, -, -⟩
    cases hdebug.symm.trans hp
  · rintro ⟨⟨p, hp⟩, -, -, -⟩
    cases hrelease.symm.trans hp

end ClashMeta.WebSocket
