import ClashMeta.Basic

/-!
# WebSocket frames (protocol/src/websocket.rs)

`parseFrame` is the part of `WsStream::parse_frame` that reads a frame off the incoming buffer,
`frame` the client's own encoder. `ServerFrame` is a frame as a peer may send it: any of the
three length forms that holds its length, masked or not, whatever its FIN and RSV bits.
`parseFrame_take` says what the parser makes of any part of a stream that starts with a frame.
-/

namespace ClashMeta.WebSocket

/-- A masking key. -/
abbrev Mask := Vector Byte 4

open List

/-- Masking and unmasking: byte `i` is combined with key byte `i % 4`. -/
def applyMask (mask : List Byte) (bytes : List Byte) : List Byte :=
  bytes.mapIdx fun i b => b ^^^ mask.getD (i % 4) 0

/-- `WsStream::frame` (websocket.rs:195-212), given the random key. -/
def frame (mask : Mask) (bytes : List Byte) (opcode : Byte) : List Byte :=
  let len := bytes.length
  let length :=
    if len < 126 then [0x80 ||| UInt8.ofNat len]
    else if len ≤ 0xffff then (0x80 ||| 126) :: beBytes 2 len
    else (0x80 ||| 127) :: beBytes 8 len
  [0x80 ||| opcode] ++ length ++ mask.toList ++ applyMask mask.toList bytes

/-- `usize::MAX` on a 64-bit target. -/
def usizeMax : Nat := 2 ^ 64 - 1

/-- The outcomes of looking for a frame in the buffer. `panicked` is the addition
`at + len` past `usize::MAX`: an overflow panic, or after wrapping a slice whose
end lies before its start. -/
inductive Parsed where
  | incomplete
  | oversized
  | panicked
  | frame (opcode : Byte) (data : List Byte) (rest : List Byte)
  deriving DecidableEq, Repr

/-- The declared payload length and where the length field ends; `none` while
bytes of it are missing (websocket.rs:220-235). -/
def lengthField (incoming : List Byte) : Option (Nat × Nat) :=
  let short := (incoming.getD 1 0 &&& 0x7f).toNat
  if short = 126 then
    if incoming.length < 4 then none else some (fromBe ((incoming.drop 2).take 2), 4)
  else if short = 127 then
    if incoming.length < 10 then none else some (fromBe ((incoming.drop 2).take 8), 10)
  else some (short, 2)

/-- `WsStream::parse_frame` up to the match on the opcode (websocket.rs:213-254). -/
def parseFrame (incoming : List Byte) : Parsed :=
  if incoming.length < 2 then .incomplete
  else
    let opcode := incoming.getD 0 0 &&& 0x0f
    let masked := incoming.getD 1 0 &&& 0x80 != 0
    match lengthField incoming with
    | none => .incomplete
    | some (len, start) =>
      if usizeMax < len then .oversized
      else if masked ∧ incoming.length < start + 4 then .incomplete
      else
        let mask := if masked then (incoming.drop start).take 4 else []
        let start := if masked then start + 4 else start
        if usizeMax < start + len then .panicked
        else if incoming.length < start + len then .incomplete
        else
          let data := (incoming.drop start).take len
          .frame opcode (if masked then applyMask mask data else data)
            (incoming.drop (start + len))

/-! ## Frames of the peer -/

/-- The opcodes the stream knows. -/
inductive Opcode where
  | continuation
  | binary
  | close
  | ping
  | pong
  deriving DecidableEq, Repr

/-- The number of an opcode. -/
def Opcode.code : Opcode → Nat
  | continuation => 0
  | binary => 2
  | close => 8
  | ping => 9
  | pong => 10

/-- Whether the payload belongs to the data stream. -/
def Opcode.isData : Opcode → Bool
  | continuation | binary => true
  | close | ping | pong => false

/-- How the payload length is written. -/
inductive LengthForm where
  | short
  | medium
  | long
  deriving DecidableEq, Repr

/-- The lengths a form can hold; the top bit of the long form is zero. -/
def LengthForm.limit : LengthForm → Nat
  | short => 126
  | medium => 2 ^ 16
  | long => 2 ^ 63

/-- The 7-bit length field. -/
def LengthForm.code : LengthForm → Nat → Nat
  | short, len => len
  | medium, _ => 126
  | long, _ => 127

/-- The extended length field. -/
def LengthForm.extended : LengthForm → Nat → List Byte
  | short, _ => []
  | medium, len => beBytes 2 len
  | long, len => beBytes 8 len

/-- A complete frame from the server; `high` holds the FIN and RSV bits. -/
structure ServerFrame where
  high : Fin 16
  opcode : Opcode
  form : LengthForm
  mask : Option Mask
  payload : List Byte
  fits : payload.length < form.limit

namespace ServerFrame

/-- The key's bytes, if any. -/
def maskBytes (f : ServerFrame) : List Byte := (f.mask.map Vector.toList).getD []

/-- FIN and RSV bits and opcode. -/
def first (f : ServerFrame) : Byte := UInt8.ofNat (16 * f.high + f.opcode.code)

/-- Mask bit and length field. -/
def second (f : ServerFrame) : Byte :=
  UInt8.ofNat ((if f.mask.isSome then 128 else 0) + f.form.code f.payload.length)

/-- The extended length field. -/
def extended (f : ServerFrame) : List Byte := f.form.extended f.payload.length

/-- Everything before the payload. -/
def header (f : ServerFrame) : List Byte :=
  f.first :: f.second :: (f.extended ++ f.maskBytes)

/-- The payload as it travels. -/
def body (f : ServerFrame) : List Byte :=
  if f.mask.isSome then applyMask f.maskBytes f.payload else f.payload

/-- The frame's bytes. -/
def encode (f : ServerFrame) : List Byte := f.header ++ f.body

theorem maskBytes_length (f : ServerFrame) :
    f.maskBytes.length = if f.mask.isSome then 4 else 0 := by
  unfold maskBytes
  cases f.mask <;> simp

@[simp] theorem length_applyMask (mask bytes : List Byte) :
    (applyMask mask bytes).length = bytes.length := by
  simp [applyMask]

theorem body_length (f : ServerFrame) : f.body.length = f.payload.length := by
  unfold body
  split <;> simp

end ServerFrame

/-- Masking twice gives the bytes back. -/
theorem applyMask_applyMask (mask bytes : List Byte) :
    applyMask mask (applyMask mask bytes) = bytes := by
  apply ext_getElem
  · simp [applyMask]
  · intro i h₁ h₂
    simp only [applyMask, getElem_mapIdx]
    rw [UInt8.xor_assoc, UInt8.xor_self, UInt8.xor_zero]

/-! ## Parsing what a peer sends -/

theorem prefix_append_split {α : Type*} {p a b : List α} (h : p <+: a ++ b)
    (hle : a.length ≤ p.length) : ∃ q, p = a ++ q ∧ q <+: b := by
  obtain ⟨t, ht⟩ := h
  rcases append_eq_append_iff.mp ht with ⟨c, hc, ht'⟩ | ⟨c, hc, ht'⟩
  · -- `p` stops inside `a`, so it is `a`
    have hnil : c = [] := by
      have hlen := congrArg List.length hc
      rw [length_append] at hlen
      exact length_eq_zero_iff.mp (by omega)
    subst hnil
    exact ⟨[], by simpa using hc.symm, nil_prefix⟩
  · exact ⟨c, hc, t, ht'.symm⟩

theorem masked_byte (masked : Bool) (code : Fin 128) :
    (UInt8.ofNat ((if masked then 128 else 0) + code) &&& 0x7f).toNat = code ∧
      (UInt8.ofNat ((if masked then 128 else 0) + code) &&& 0x80 != 0) = masked := by
  revert masked code
  decide +kernel

namespace ServerFrame

variable (f : ServerFrame)

theorem first_opcode : f.first &&& 0x0f = UInt8.ofNat f.opcode.code := by
  unfold first
  generalize f.high = high
  cases f.opcode <;> revert high <;> decide

theorem code_lt : f.form.code f.payload.length < 128 := by
  have hfits := f.fits
  cases hform : f.form <;> simp only [hform, LengthForm.code, LengthForm.limit] at hfits ⊢
  all_goals omega

theorem second_length : (f.second &&& 0x7f).toNat = f.form.code f.payload.length :=
  (masked_byte f.mask.isSome ⟨_, f.code_lt⟩).1

theorem second_masked : (f.second &&& 0x80 != 0) = f.mask.isSome :=
  (masked_byte f.mask.isSome ⟨_, f.code_lt⟩).2

theorem extended_length_le : f.extended.length ≤ 8 := by
  unfold extended
  cases f.form <;> simp [LengthForm.extended]

/-- The length is read in any of its forms. -/
theorem lengthField_of_complete (b : Byte) (q : List Byte) :
    lengthField (b :: f.second :: (f.extended ++ q)) =
      some (f.payload.length, 2 + f.extended.length) := by
  have hfits := f.fits
  unfold lengthField extended
  simp only [getD_cons_succ, getD_cons_zero, f.second_length, drop_succ_cons,
    drop_zero, length_cons, length_append]
  cases hform : f.form with
  | short =>
    simp only [hform, LengthForm.limit] at hfits
    have h126 : f.payload.length ≠ 126 := by omega
    have h127 : f.payload.length ≠ 127 := by omega
    simp [LengthForm.code, LengthForm.extended, h126, h127]
  | medium =>
    simp only [hform, LengthForm.limit] at hfits
    simp only [LengthForm.code, LengthForm.extended, if_true, length_beBytes]
    rw [if_neg (by omega), take_left' (length_beBytes 2 _), fromBe_beBytes (by omega)]
  | long =>
    simp only [hform, LengthForm.limit] at hfits
    simp only [LengthForm.code, LengthForm.extended, if_true, length_beBytes]
    rw [if_neg (by omega), if_neg (by omega), take_left' (length_beBytes 8 _),
      fromBe_beBytes (by omega)]

/-- A length that is cut off is not read. -/
theorem lengthField_of_missing (b : Byte) {q : List Byte} (hq : q.length < f.extended.length) :
    lengthField (b :: f.second :: q) = none := by
  unfold extended at hq
  unfold lengthField
  simp only [getD_cons_succ, getD_cons_zero, f.second_length, length_cons]
  cases hform : f.form with
  | short => simp [hform, LengthForm.extended] at hq
  | medium =>
    simp only [hform, LengthForm.extended, length_beBytes] at hq
    simp only [LengthForm.code, if_true]
    rw [if_pos (by omega)]
  | long =>
    simp only [hform, LengthForm.extended, length_beBytes] at hq
    simp only [LengthForm.code, if_true]
    rw [if_neg (by omega), if_pos (by omega)]

theorem payload_length_lt : f.payload.length < 2 ^ 63 := by
  have hfits := f.fits
  cases hform : f.form <;> simp only [hform, LengthForm.limit] at hfits <;> omega

theorem parseFrame_missing_length {q : List Byte} (hq : q.length < f.extended.length) :
    parseFrame (f.first :: f.second :: q) = .incomplete := by
  unfold parseFrame
  rw [if_neg (by simp), f.lengthField_of_missing _ hq]

theorem parseFrame_missing_mask {q : List Byte} (hq : q.length < f.maskBytes.length) :
    parseFrame (f.first :: f.second :: (f.extended ++ q)) = .incomplete := by
  have hlen := f.payload_length_lt
  have hmasked : f.mask.isSome = true ∧ q.length < 4 := by
    rw [f.maskBytes_length] at hq
    split at hq
    · exact ⟨‹_›, hq⟩
    · omega
  unfold parseFrame
  rw [if_neg (by simp), f.lengthField_of_complete]
  simp only [getD_cons_succ, getD_cons_zero, f.second_masked, hmasked.1]
  rw [if_neg (by unfold usizeMax; omega), if_pos]
  simp only [length_cons, length_append, true_and]
  omega

/-- A complete header: the frame is taken once its payload is there. -/
theorem parseFrame_header (q : List Byte) :
    parseFrame (f.header ++ q) =
      if q.length < f.payload.length then .incomplete
      else .frame (UInt8.ofNat f.opcode.code)
        (if f.mask.isSome then applyMask f.maskBytes (q.take f.payload.length)
          else q.take f.payload.length)
        (q.drop f.payload.length) := by
  have hlen := f.payload_length_lt
  have hext := f.extended_length_le
  have hmask := f.maskBytes_length
  have hstart : (if f.mask.isSome = true then 2 + f.extended.length + 4
      else 2 + f.extended.length) = f.header.length := by
    simp only [header, length_cons, length_append, hmask]
    split <;> omega
  have hheader : f.header.length ≤ 14 := by
    rw [← hstart]
    split <;> omega
  unfold parseFrame
  rw [if_neg (by simp [header])]
  have hfield : lengthField (f.header ++ q) =
      some (f.payload.length, 2 + f.extended.length) := by
    unfold header
    rw [cons_append, cons_append, append_assoc]
    exact f.lengthField_of_complete _ _
  have h0 : (f.header ++ q).getD 0 0 = f.first := rfl
  have h1 : (f.header ++ q).getD 1 0 = f.second := rfl
  have hkey : f.mask.isSome = true →
      ((f.header ++ q).drop (2 + f.extended.length)).take 4 = f.maskBytes := by
    intro hsome
    rw [if_pos hsome] at hmask
    have hsplit : f.header ++ q = (f.first :: f.second :: f.extended) ++ (f.maskBytes ++ q) := by
      simp [header]
    rw [hsplit, drop_left' (by simp; omega), take_left' hmask]
  -- no sum overflows, and the key is complete
  rw [hfield]
  simp only [h0, h1, f.second_masked, f.first_opcode, hstart, length_append]
  rw [if_neg (by unfold usizeMax; omega), if_neg ?notMissing, if_neg (by unfold usizeMax; omega)]
  case notMissing =>
    rintro ⟨hsome, hlt⟩
    rw [if_pos hsome] at hstart
    omega
  have hrest : (f.header ++ q).drop (f.header.length + f.payload.length) =
      q.drop f.payload.length := by
    rw [← drop_drop, drop_left]
  rw [drop_left, hrest]
  by_cases hq : q.length < f.payload.length
  · rw [if_pos (by omega), if_pos hq]
  · rw [if_neg (by omega), if_neg hq]
    by_cases hsome : f.mask.isSome = true
    · simp only [hsome, if_true, hkey hsome]
    · simp only [hsome, if_false, Bool.false_eq_true]

/-- **Parsing a part of a stream that starts with a frame**: nothing is taken
while the frame is incomplete, and exactly the frame once it is there. -/
theorem parseFrame_incomplete {p rest : List Byte} (h : p <+: f.encode ++ rest)
    (hlt : p.length < f.encode.length) : parseFrame p = .incomplete := by
  by_cases h2 : p.length < 2
  · unfold parseFrame
    rw [if_pos h2]
  · have hsplit : f.encode ++ rest = [f.first, f.second] ++
        (f.extended ++ (f.maskBytes ++ (f.body ++ rest))) := by
      simp [encode, header]
    rw [hsplit] at h
    obtain ⟨q₀, rfl, hq₀⟩ := prefix_append_split h (by simp; omega)
    by_cases hlength : q₀.length < f.extended.length
    · exact f.parseFrame_missing_length hlength
    · obtain ⟨q₁, rfl, hq₁⟩ := prefix_append_split hq₀ (by omega)
      by_cases hmask : q₁.length < f.maskBytes.length
      · exact f.parseFrame_missing_mask hmask
      · obtain ⟨q, rfl, -⟩ := prefix_append_split hq₁ (by omega)
        have hshort : q.length < f.payload.length := by
          rw [← f.body_length]
          simp only [encode, header, length_append, length_cons, length_nil] at hlt
          omega
        have heq : [f.first, f.second] ++ (f.extended ++ (f.maskBytes ++ q)) = f.header ++ q := by
          simp [header]
        rw [heq, f.parseFrame_header, if_pos hshort]

/-- A whole frame is taken, whatever follows. -/
theorem parseFrame_complete (rest : List Byte) :
    parseFrame (f.encode ++ rest) = .frame (UInt8.ofNat f.opcode.code) f.payload rest := by
  unfold encode
  rw [append_assoc, f.parseFrame_header, if_neg (by simp [f.body_length])]
  rw [take_left' f.body_length, drop_left' f.body_length]
  unfold body
  split
  · rw [applyMask_applyMask]
  · rfl

end ServerFrame

end ClashMeta.WebSocket
