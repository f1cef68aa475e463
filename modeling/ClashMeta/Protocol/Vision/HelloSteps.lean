import ClashMeta.Lib.Slice
import ClashMeta.Protocol.Vision.Hello

/-!
# The ServerHello, operation by operation

`observe` and `serverHello` read their bytes with total functions. `observeIn` and
`serverHelloIn` are the same code (protocol/src/vision.rs:50-149) with every index, slice and
difference that may panic.
-/

namespace ClashMeta.Vision

open List

/-! ## The operations -/

open Slice

/-- The loop over the extensions (vision.rs:127-147), every operation checked. Every extension
has a header of four bytes, so the number of bytes bounds the turns. -/
def extensionsIn (bytes : List Byte) (stop : Nat) :
    Nat → Nat → Option Bool → Except Panic (Option (Option Bool))
  | 0, cursor, version => .ok (if cursor < stop then none else some version)
  | fuel + 1, cursor, version =>
    if cursor < stop then
      if stop < cursor + 4 then .ok none
      else do
        let k1 ← index bytes cursor
        let k0 ← index bytes (cursor + 1)
        let n1 ← index bytes (cursor + 2)
        let n0 ← index bytes (cursor + 3)
        let n := fromBe16 n1 n0
        if stop < cursor + 4 + n then return none
        else if fromBe16 k1 k0 = 43 then
          if version.isSome ∨ n ≠ 2 then return none
          else do
            let body ← range bytes (cursor + 4) (cursor + 4 + n)
            extensionsIn bytes stop fuel (cursor + 4 + n) (some (body = [3, 4]))
        else extensionsIn bytes stop fuel (cursor + 4 + n) version
    else .ok (some version)

/-- The end of a ServerHello, from the compression method on (vision.rs:111-149). -/
def serverHelloEndIn (bytes : List Byte) (offset : Nat) : Except Panic (Option Bool) := do
  let s1 ← index bytes offset
  let s0 ← index bytes (offset + 1)
  let suite := fromBe16 s1 s0
  if offset + 3 = bytes.length then return some false
  else if bytes.length < offset + 5 then return none
  else do
    let l1 ← index bytes (offset + 3)
    let l0 ← index bytes (offset + 4)
    let length := fromBe16 l1 l0
    if offset + 5 + length ≠ bytes.length then return none
    else do
      let version ← extensionsIn bytes (offset + 5 + length) length (offset + 5) none
      return version.map fun version =>
        version = some true ∧ 0x1301 ≤ suite ∧ suite ≤ 0x1304

/-- `server_hello` (vision.rs:102-149), every operation checked. -/
def serverHelloIn (bytes : List Byte) : Except Panic (Option Bool) :=
  if bytes.length < 38 then .ok none
  else do
    let front ← upTo bytes 2
    if front ≠ [3, 3] then return none
    else do
      let session ← index bytes 34
      if 32 < session.toNat then return none
      else if bytes.length < 35 + session.toNat + 3 then return none
      else do
        let compression ← index bytes (35 + session.toNat + 2)
        if compression ≠ 0 then return none
        else serverHelloEndIn bytes (35 + session.toNat)

variable {bytes : List Byte}

theorem index_eq {i : Nat} (h : i < bytes.length) : index bytes i = .ok (bytes.getD i 0) := by
  rw [index_of_lt h, getD_eq_getElem _ _ h]

theorem drop_eq_getD_cons {i : Nat} (h : i < bytes.length) :
    bytes.drop i = bytes.getD i 0 :: bytes.drop (i + 1) := by
  rw [drop_eq_getElem_cons h, getD_eq_getElem _ _ h]

theorem extensions_short (fuel : Nat) (version : Option Bool) (hne : bytes ≠ [])
    (hlt : bytes.length < 4) : extensions fuel bytes version = none := by
  match fuel, bytes, hne with
  | 0, [_], _ | 0, [_, _], _ | 0, [_, _, _], _ | _ + 1, [_], _ | _ + 1, [_, _], _ => rfl
  | _ + 1, [_, _, _], _ => rfl
  | _, _ :: _ :: _ :: _ :: _, _ =>
    simp only [length_cons] at hlt
    omega

/-- **The extensions are read inside the message.** -/
theorem extensionsIn_eq {fuel cursor : Nat} (version : Option Bool)
    (hcursor : cursor ≤ bytes.length) (hfuel : bytes.length - cursor ≤ fuel) :
    extensionsIn bytes bytes.length fuel cursor version =
      .ok (extensions fuel (bytes.drop cursor) version) := by
  -- an extension takes four bytes at least, so the fuel outlasts the bytes that are left
  induction fuel generalizing cursor version with
  | zero =>
    have hend : cursor = bytes.length := by omega
    subst hend
    rw [extensionsIn, if_neg (lt_irrefl _), drop_length, extensions]
  | succ fuel ih =>
    rw [extensionsIn]
    by_cases hend : cursor < bytes.length
    swap
    · rw [if_neg hend, drop_eq_nil_of_le (not_lt.mp hend), extensions]
    rw [if_pos hend]
    by_cases hfour : bytes.length < cursor + 4
    · have hdrop := length_drop (i := cursor) (l := bytes)
      rw [if_pos hfour, extensions_short _ version (fun h => by
        rw [h, length_nil] at hdrop
        omega) (by omega)]
    rw [if_neg hfour, index_eq hend, index_eq (by omega), index_eq (by omega), index_eq (by omega),
      drop_eq_getD_cons hend, drop_eq_getD_cons (by omega), drop_eq_getD_cons (by omega),
      drop_eq_getD_cons (by omega), extensions]
    simp only [length_drop, drop_drop, show cursor + 1 + 1 + 1 + 1 = cursor + 4 from rfl,
      show cursor + 1 + 1 + 1 = cursor + 3 from rfl, show cursor + 1 + 1 = cursor + 2 from rfl]
    show (if _ then _ else _) = _
    generalize fromBe16 (bytes.getD (cursor + 2) 0) (bytes.getD (cursor + 3) 0) = n
    generalize fromBe16 (bytes.getD cursor 0) (bytes.getD (cursor + 1) 0) = kind
    by_cases hlong : bytes.length < cursor + 4 + n
    · have hrest : bytes.length - (cursor + 4) < n := by omega
      rw [if_pos hlong, if_pos hrest]
      rfl
    have hrest : ¬ bytes.length - (cursor + 4) < n := by omega
    rw [if_neg hlong, if_neg hrest]
    by_cases hkind : kind = 43
    · rw [if_pos hkind, if_pos hkind]
      by_cases htwice : version.isSome = true ∨ n ≠ 2
      · rw [if_pos htwice, if_pos htwice]
        rfl
      · rw [if_neg htwice, if_neg htwice, range_of_le (by omega) (by omega),
          Nat.add_sub_cancel_left]
        exact ih _ (by omega) (by omega)
    · rw [if_neg hkind, if_neg hkind]
      exact ih _ (by omega) (by omega)

theorem serverHelloEndIn_eq {offset : Nat} (h : offset + 3 ≤ bytes.length) :
    serverHelloEndIn bytes offset = .ok
      (if offset + 3 = bytes.length then some false
      else if bytes.length < offset + 5 then none
      else if offset + 5 + fromBe16 (bytes.getD (offset + 3) 0) (bytes.getD (offset + 4) 0) ≠
        bytes.length then none
      else (extensions (fromBe16 (bytes.getD (offset + 3) 0) (bytes.getD (offset + 4) 0))
          (bytes.drop (offset + 5)) none).map fun version =>
        version = some true ∧ 0x1301 ≤ fromBe16 (bytes.getD offset 0) (bytes.getD (offset + 1) 0) ∧
          fromBe16 (bytes.getD offset 0) (bytes.getD (offset + 1) 0) ≤ 0x1304) := by
  unfold serverHelloEndIn
  rw [index_eq (by omega), index_eq (by omega)]
  show (if _ then _ else _) = _
  split
  · rfl
  split
  · rfl
  rw [index_eq (by omega), index_eq (by omega)]
  show (if _ then _ else _) = _
  generalize fromBe16 (bytes.getD (offset + 3) 0) (bytes.getD (offset + 4) 0) = length
  by_cases hend : offset + 5 + length = bytes.length
  · rw [if_neg (not_not.mpr hend), if_neg (not_not.mpr hend), hend,
      extensionsIn_eq none (by omega) (by omega)]
    rfl
  · rw [if_pos hend, if_pos hend]
    rfl

/-- **A ServerHello is read inside its bytes.** -/
theorem serverHelloIn_eq (bytes : List Byte) : serverHelloIn bytes = .ok (serverHello bytes) := by
  unfold serverHelloIn serverHello
  by_cases hlen : bytes.length < 38
  · rw [if_pos hlen, if_pos (.inl hlen)]
  rw [if_neg hlen, upTo_of_le (by omega)]
  show (if _ then _ else _) = _
  by_cases hfront : bytes.take 2 = [3, 3]
  swap
  · rw [if_pos hfront, if_pos (.inr hfront)]
    rfl
  rw [if_neg (not_not.mpr hfront), if_neg (fun h => h.elim hlen fun h => h hfront),
    index_eq (by omega)]
  show (if _ then _ else _) = _
  dsimp only
  generalize (bytes.getD 34 0).toNat = session
  by_cases hsession : 32 < session
  · rw [if_pos hsession, if_pos hsession]
    rfl
  rw [if_neg hsession, if_neg hsession]
  by_cases hoffset : bytes.length < 35 + session + 3
  · rw [if_pos hoffset, if_pos (.inl hoffset)]
    rfl
  rw [if_neg hoffset, index_eq (by omega)]
  show (if _ then _ else _) = _
  by_cases hcompression : bytes.getD (35 + session + 2) 0 = 0
  · rw [if_neg (not_not.mpr hcompression), if_neg (fun h => h.elim hoffset fun h => h hcompression)]
    exact serverHelloEndIn_eq (not_lt.mp hoffset)
  · rw [if_pos hcompression, if_pos (.inr hcompression)]
    rfl

namespace TlsHello

/-- The length a record has by its header (vision.rs:55, 71). -/
def recordLengthIn (record : List Byte) : Except Panic Nat := do
  let hi ← index record 3
  let lo ← index record 4
  return 5 + fromBe16 hi lo

/-- The bytes to collect next (vision.rs:52-56). -/
def needIn (t : TlsHello) : Except Panic Nat :=
  if t.record.length < 5 then .ok 5 else recordLengthIn t.record

/-- The look at the handshake bytes (vision.rs:77-98). -/
def handshakeAnswerIn (handshake : List Byte) : Except Panic (Option (Option Bool)) :=
  if 18432 < handshake.length then .ok (some none)
  else if handshake.length < 4 then .ok none
  else do
    let kind ← index handshake 0
    if kind ≠ 2 then return some none
    else do
      let b2 ← index handshake 1
      let b1 ← index handshake 2
      let b0 ← index handshake 3
      let length := fromBe [b2, b1, b0]
      if 18428 < length then return some none
      else if length + 4 ≤ handshake.length then do
        let hello ← range handshake 4 (length + 4)
        let answer ← serverHelloIn hello
        return some answer
      else return none

/-- A turn with the bytes it has taken (vision.rs:63-98). -/
def absorbIn (t : TlsHello) (taken : List Byte) :
    Except Panic (Option (Option Bool) × TlsHello) :=
  let record := t.record ++ taken
  if record.length < 5 then .ok (none, { t with record })
  else do
    let kind ← index record 0
    let major ← index record 1
    if kind ≠ 22 ∨ major ≠ 3 then return (some none, { t with record, done := true })
    else do
      let need ← recordLengthIn record
      if record.length < need then return (none, { t with record })
      else do
        let body ← range record 5 record.length
        let handshake := t.handshake ++ body
        match ← handshakeAnswerIn handshake with
        | some answer => return (some answer, { record := [], handshake, done := true })
        | none => return (none, { t with record := [], handshake })

/-- `TlsHello::observe` (vision.rs:50-100), every operation checked. -/
def observeIn : Nat → TlsHello → List Byte → Except Panic (Option Bool × TlsHello)
  | 0, t, _ => .ok (none, t)
  | fuel + 1, t, bytes =>
    if bytes = [] ∨ t.done then .ok (none, t)
    else do
      let need ← t.needIn
      if 18437 < need then return (none, { t with done := true })
      else do
        let left ← sub need t.record.length
        let taken ← upTo bytes (min bytes.length left)
        let rest ← range bytes (min bytes.length left) bytes.length
        match ← t.absorbIn taken with
        | (some answer, t) => return (answer, t)
        | (none, t) => observeIn fuel t rest

theorem recordLengthIn_eq {record : List Byte} (h : 5 ≤ record.length) :
    recordLengthIn record = .ok (recordLength record) := by
  unfold recordLengthIn
  rw [index_eq (by omega), index_eq (by omega)]
  rfl

theorem needIn_eq (t : TlsHello) : t.needIn = .ok t.need := by
  unfold needIn need
  split
  · rfl
  · exact recordLengthIn_eq (by omega)

theorem handshakeAnswerIn_eq (handshake : List Byte) :
    handshakeAnswerIn handshake = .ok (handshakeAnswer handshake) := by
  unfold handshakeAnswerIn handshakeAnswer
  split
  · rfl
  split
  · rfl
  rename_i hlong hfour
  have hthree : (handshake.drop 1).take 3 =
      [handshake.getD 1 0, handshake.getD 2 0, handshake.getD 3 0] := by
    rw [drop_eq_getD_cons (by omega), drop_eq_getD_cons (by omega), drop_eq_getD_cons (by omega)]
    rfl
  rw [index_eq (by omega)]
  show (if _ then _ else _) = _
  split
  · rfl
  rw [index_eq (by omega), index_eq (by omega), index_eq (by omega), hthree]
  show (if _ then _ else _) = _
  dsimp only
  split
  · rfl
  split
  · rename_i hcomplete
    rw [range_of_le (by omega) hcomplete, Nat.add_sub_cancel]
    show (do let answer ← serverHelloIn _; _) = _
    rw [serverHelloIn_eq]
    rfl
  · rfl

theorem absorbIn_eq (t : TlsHello) (taken : List Byte) :
    t.absorbIn taken = .ok (t.absorb taken) := by
  unfold absorbIn absorb
  dsimp only
  split
  · rfl
  rename_i hfive
  rw [index_eq (by omega), index_eq (by omega)]
  show (if _ then _ else _) = _
  split
  · rfl
  rw [recordLengthIn_eq (by omega)]
  show (if _ then _ else _) = _
  split
  · rfl
  have hbody : ((t.record ++ taken).drop 5).take ((t.record ++ taken).length - 5) =
      (t.record ++ taken).drop 5 := take_of_length_le (by rw [length_drop])
  rw [range_of_le (by omega) le_rfl, hbody]
  show (do let answer ← handshakeAnswerIn _; _) = _
  rw [handshakeAnswerIn_eq]
  show (match handshakeAnswer _ with | some _ => _ | none => _) = _
  cases handshakeAnswer (t.handshake ++ (t.record ++ taken).drop 5) <;> rfl

variable {t : TlsHello}

theorem observeIn_eq_observeLoop {fuel : Nat} (ht : t.Ready) (bytes : List Byte) :
    observeIn fuel t bytes = .ok (observeLoop fuel t bytes) := by
  induction fuel generalizing t bytes with
  | zero => rfl
  | succ fuel ih =>
    by_cases hne : bytes = []
    · rw [observeIn, observeLoop, if_pos (.inl hne), if_pos (.inl hne)]
    cases hdone : t.done with
    | true => rw [observeIn, observeLoop, if_pos (.inr hdone), if_pos (.inr hdone)]
    | false =>
      have hshort := (ht hdone).short
      have hgo : ¬ (bytes = [] ∨ t.done = true) := by
        rw [hdone]
        exact fun h => h.elim hne Bool.false_ne_true
      -- no slice goes past the bytes at hand
      have hmin := min_le_right (t.need - t.record.length) bytes.length
      rw [observeIn, if_neg hgo, observeLoop_succ hne hdone, needIn_eq]
      show (if _ then _ else _) = _
      split
      · rfl
      rw [sub_of_le (le_of_lt hshort)]
      show (do let taken ← upTo bytes (min bytes.length (t.need - t.record.length)); _) = _
      rw [min_comm]
      have hrest : (bytes.drop (t.need - t.record.length)).take
          (bytes.length - min (t.need - t.record.length) bytes.length) =
          bytes.drop (t.need - t.record.length) :=
        take_of_length_le (by rw [length_drop]; omega)
      rw [upTo_of_le hmin, range_of_le hmin le_rfl, ← take_eq_take_min, ← drop_eq_drop_min, hrest]
      show (do let r ← t.absorbIn (bytes.take (t.need - t.record.length)); _) = _
      rw [absorbIn_eq]
      rcases t.absorb_cases (bytes.take (t.need - t.record.length)) with
        ⟨answer, t', habsorb, -⟩ | ⟨t', habsorb, hready⟩ <;> rw [habsorb]
      · rfl
      · exact ih hready _

/-- **Observing never panics**, and the loop ends by itself: more turns make no difference. -/
theorem observeIn_eq {fuel : Nat} (ht : t.Ready) {bytes : List Byte} (hfuel : bytes.length ≤ fuel) :
    observeIn fuel t bytes = .ok (t.observe bytes) := by
  rw [observeIn_eq_observeLoop ht, observeLoop_fuel ht hfuel le_rfl]
  rfl

/-- The answers to the pieces of a stream, every operation checked. Each call gets as many turns
as it has bytes, and some more. -/
def observeAllIn (extra : Nat) : TlsHello → List (List Byte) → Except Panic (List (Option Bool))
  | _, [] => .ok []
  | t, chunk :: chunks => do
    let (answer, t) ← observeIn (chunk.length + extra) t chunk
    let answers ← observeAllIn extra t chunks
    return answer :: answers

theorem observeAllIn_eq (extra : Nat) (ht : t.Ready) (chunks : List (List Byte)) :
    observeAllIn extra t chunks = .ok (t.observeAll chunks) := by
  induction chunks generalizing t with
  | nil => rfl
  | cons chunk chunks ih =>
    rw [observeAllIn, observeIn_eq ht (Nat.le_add_right _ _), observeAll]
    show (do let answers ← observeAllIn extra (t.observe chunk).2 chunks; _) = _
    rw [ih (ready_observe ht chunk)]
    rfl

/-- **The answer does not depend on how a stream is cut.** For every list of pieces, a fresh
`TlsHello` takes them up without a panic, be it an index, a slice or the difference of the
lengths; and its first answer is the answer to all the bytes at once, which it takes up without a
panic too. -/
theorem tlsHello_chunks (extra : Nat) (chunks : List (List Byte)) :
    ∃ answers answer t, observeAllIn extra empty chunks = .ok answers ∧
      observeIn (chunks.flatten.length + extra) empty chunks.flatten = .ok (answer, t) ∧
      answers.findSome? id = answer := by
  have hready : empty.Ready := fun _ => fine_empty
  exact ⟨_, _, _, observeAllIn_eq extra hready chunks, observeIn_eq hready (Nat.le_add_right _ _),
    findSome?_observeAll hready chunks⟩

end TlsHello

end ClashMeta.Vision
