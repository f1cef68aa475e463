import ClashMeta.Protocol.Vision.Stream

/-!
# The grammar of a Vision stream

What a whole stream of Vision bytes means, without regard to how it arrives.
-/

namespace ClashMeta.Vision

open List

/-- The reference decoder of what follows the UUID. It reads command, content length, padding
length, content and padding, again and again; a frame with command 1 or 2 is the last one and what
follows it is payload. A command above 2 and an end inside a frame are errors. -/
def decodeFrames : List Byte → List Byte × Finish
  | [] => ([], .eof)
  | command :: c1 :: c0 :: p1 :: p0 :: rest =>
    let content := fromBe16 c1 c0
    let padding := fromBe16 p1 p0
    if 2 < command then ([], .error)
    else if rest.length < content then (rest, .error)
    else if rest.length < content + padding then (rest.take content, .error)
    else if command ≠ 0 then (rest.take content ++ rest.drop (content + padding), .eof)
    else
      (rest.take content ++ (decodeFrames (rest.drop (content + padding))).1,
        (decodeFrames (rest.drop (content + padding))).2)
  | _ => ([], .error)
termination_by bytes => bytes.length
decreasing_by all_goals simp only [List.length_drop, List.length_cons]; omega

/-- What the reader makes of a whole stream. It looks at the first 21 bytes at once (the UUID and a
header): with fewer of them a stream that is not empty is an error, and a stream that does not start
with the UUID is payload as it is. -/
def unpad (id : Uuid) (bytes : List Byte) : List Byte × Finish :=
  if bytes = [] then ([], .eof)
  else if bytes.length < 21 then ([], .error)
  else if bytes.take 16 ≠ id.toList then (bytes, .eof)
  else decodeFrames (bytes.drop 16)

/-- Payload in front of a stream. -/
def prepend (c : List Byte) (r : List Byte × Finish) : List Byte × Finish := (c ++ r.1, r.2)

/-- What follows the last byte of a frame. -/
def behind (command : Byte) (bytes : List Byte) : List Byte × Finish :=
  if command = 0 then decodeFrames bytes else (bytes, .eof)

/-- The rest of a stream from inside the padding of a frame. -/
def inPadding (padding : Nat) (command : Byte) (bytes : List Byte) : List Byte × Finish :=
  if bytes.length < padding then ([], .error) else behind command (bytes.drop padding)

/-- The rest of a stream from inside a frame, by what is left of its content and padding. The lemmas
about it say how it moves when bytes are taken. -/
def inFrame (content padding : Nat) (command : Byte) (bytes : List Byte) :
    List Byte × Finish :=
  if bytes.length < content then (bytes, .error)
  else prepend (bytes.take content) (inPadding padding command (bytes.drop content))

@[simp] theorem decodeFrames_nil : decodeFrames [] = ([], .eof) := by
  rw [decodeFrames]

theorem decodeFrames_header (command c1 c0 p1 p0 : Byte) (rest : List Byte) :
    decodeFrames (command :: c1 :: c0 :: p1 :: p0 :: rest) =
      if 2 < command then ([], .error)
      else inFrame (fromBe16 c1 c0) (fromBe16 p1 p0) command rest := by
  rw [decodeFrames]
  simp only [inFrame, inPadding, behind, prepend, length_drop, drop_drop]
  by_cases hcommand : 2 < command
  · rw [if_pos hcommand, if_pos hcommand]
  by_cases hcontent : rest.length < fromBe16 c1 c0
  · rw [if_pos hcontent, if_pos hcontent]
  by_cases hpadding : rest.length < fromBe16 c1 c0 + fromBe16 p1 p0
  · have hleft : rest.length - fromBe16 c1 c0 < fromBe16 p1 p0 := by omega
    rw [if_pos hpadding, if_pos hleft, append_nil]
  have hleft : ¬ rest.length - fromBe16 c1 c0 < fromBe16 p1 p0 := by omega
  rw [if_neg hpadding, if_neg hleft]
  by_cases hzero : command = 0
  · rw [if_neg (not_not.mpr hzero), if_pos hzero]
  · rw [if_pos hzero, if_neg hzero]

variable {bytes : List Byte}

theorem decodeFrames_short (hne : bytes ≠ []) (h : bytes.length < 5) :
    decodeFrames bytes = ([], .error) := by
  match bytes, hne, h with
  | [_], _, _ | [_, _], _, _ | [_, _, _], _, _ | [_, _, _, _], _, _ => rw [decodeFrames] <;> simp

theorem inFrame_content {content : Nat} {c : List Byte} (h : c.length ≤ content)
    (padding : Nat) (command : Byte) (rest : List Byte) :
    inFrame content padding command (c ++ rest) =
      prepend c (inFrame (content - c.length) padding command rest) := by
  simp only [inFrame, prepend, length_append, take_append, drop_append,
    take_of_length_le h, drop_of_length_le h, nil_append]
  by_cases hlt : rest.length < content - c.length
  · rw [if_pos hlt, if_pos (by omega)]
  · rw [if_neg hlt, if_neg (by omega), append_assoc]

theorem inFrame_zero (padding : Nat) (command : Byte) (bytes : List Byte) :
    inFrame 0 padding command bytes = inPadding padding command bytes := by
  simp [inFrame, prepend]

variable {padding : Nat}

theorem inPadding_drop {j : Nat} (hp : j ≤ padding) (hj : j ≤ bytes.length) (command : Byte) :
    inPadding (padding - j) command (bytes.drop j) = inPadding padding command bytes := by
  unfold inPadding
  rw [length_drop, drop_drop, Nat.add_sub_cancel' hp]
  by_cases h : bytes.length < padding
  · rw [if_pos h, if_pos (by omega)]
  · rw [if_neg h, if_neg (by omega)]

theorem inPadding_short (h : bytes.length < padding) (command : Byte) :
    inPadding padding command bytes = ([], .error) := if_pos h

/-! ## Streams that start with the UUID -/

/-- Behind the UUID the reader follows the reference decoder, except that it takes a stream
that ends right there for a truncated one. -/
theorem unpad_framed (id : Uuid) (bytes : List Byte) :
    unpad id (id.toList ++ bytes) =
      if bytes = [] then ([], .error) else decodeFrames bytes := by
  have hid : id.toList.length = 16 := by simp
  unfold unpad
  rw [if_neg (by simp [← length_eq_zero_iff, hid]), length_append, hid]
  have htake : (id.toList ++ bytes).take 16 = id.toList := take_left' hid
  have hdrop : (id.toList ++ bytes).drop 16 = bytes := drop_left' hid
  by_cases hnil : bytes = []
  · rw [if_pos hnil, if_pos (by simp [hnil])]
  rw [if_neg hnil]
  by_cases hshort : bytes.length < 5
  · rw [if_pos (by omega), decodeFrames_short hnil hshort]
  · rw [if_neg (by omega), if_neg (not_not.mpr htake), hdrop]

/-! ## Frames as they are sent -/

theorem decodeFrames_frame {command : Byte} (hcommand : command ≤ 2) (hbytes : bytes.length < 65536)
    (hpadding : padding < 65536) (rest : List Byte) :
    decodeFrames (VisionStream.frame command bytes padding ++ rest) =
      prepend bytes (behind command rest) := by
  have hsplit : VisionStream.frame command bytes padding ++ rest =
      command :: UInt8.ofNat (bytes.length / 256) :: UInt8.ofNat bytes.length ::
        UInt8.ofNat (padding / 256) :: UInt8.ofNat padding ::
          (bytes ++ (replicate padding 0 ++ rest)) := by
    simp [VisionStream.frame, be16]
  rw [hsplit, decodeFrames_header, if_neg (by simpa using hcommand), fromBe16_be16 hbytes,
    fromBe16_be16 hpadding, inFrame_content (Nat.le_refl _), Nat.sub_self, inFrame_zero,
    inPadding, if_neg (by simp), drop_left' (by simp)]

end ClashMeta.Vision
