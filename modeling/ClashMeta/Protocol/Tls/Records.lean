import Mathlib.Data.List.GetD
import Mathlib.Data.List.Induction
import ClashMeta.Basic
import ClashMeta.Lib.Reader

/-!
# Reads bounded by TLS records (protocol/src/record.rs:1-99)

The outer TLS stream of Vision reads its transport through `RecordBoundedStream`, which hands
out at most the rest of a header or of a body in one read and says "not yet" between two
records, so that nothing behind a record has been read when the switch to raw bytes comes.
-/

namespace ClashMeta.Tls

open List Reader

/-! ## The code -/

/-- The answer to a read. -/
abbrev Answer := Poll IoError (List Byte)

/-- The length of the body that a header declares. -/
def bodyLength (header : List Byte) : Nat := fromBe16 (header.getD 3 0) (header.getD 4 0)

/-- `RecordBoundedStream`. `header` is the part of the header read so far
(`header[..header_filled]`). -/
structure RecordBoundedStream (σ : Type*) where
  inner : σ
  header : List Byte
  recordRemaining : Nat
  yieldAfterRecord : Bool

namespace RecordBoundedStream

variable {σ : Type*}

/-- `RecordBoundedStream::new`. -/
def new (inner : σ) : RecordBoundedStream σ where
  inner := inner
  header := []
  recordRemaining := 0
  yieldAfterRecord := false

/-- How much is asked of the inner stream (record.rs:62-68). -/
def limit (rb : RecordBoundedStream σ) (n : Nat) : Nat :=
  let remaining := if rb.header.length < 5 then 5 - rb.header.length else rb.recordRemaining
  min (min remaining n) (16 * 1024)

theorem limit_header {rb : RecordBoundedStream σ} (h : rb.header.length < 5) (n : Nat) :
    rb.limit n = min (min (5 - rb.header.length) n) (16 * 1024) := by
  rw [limit, if_pos h]

theorem limit_body {rb : RecordBoundedStream σ} (h : rb.header.length = 5) (n : Nat) :
    rb.limit n = min (min rb.recordRemaining n) (16 * 1024) := by
  rw [limit, if_neg (by omega)]

/-- The end of a record, if nothing of it remains (record.rs:85-88 and 92-95). -/
def endRecord (rb : RecordBoundedStream σ) : RecordBoundedStream σ :=
  if rb.recordRemaining = 0 then { rb with header := [], yieldAfterRecord := true } else rb

/-- What the bytes of a read do to the state (record.rs:78-96). -/
def advance (rb : RecordBoundedStream σ) (bytes : List Byte) : RecordBoundedStream σ :=
  if rb.header.length < 5 then
    let header := rb.header ++ bytes
    if header.length = 5 then
      endRecord { rb with header, recordRemaining := bodyLength header }
    else { rb with header }
  else endRecord { rb with recordRemaining := rb.recordRemaining - bytes.length }

@[simp] theorem inner_endRecord (rb : RecordBoundedStream σ) : rb.endRecord.inner = rb.inner := by
  unfold endRecord
  split <;> rfl

@[simp] theorem inner_advance (rb : RecordBoundedStream σ) (bytes : List Byte) :
    (rb.advance bytes).inner = rb.inner := by
  unfold advance
  dsimp only
  split
  · split
    · exact inner_endRecord _
    · rfl
  · exact inner_endRecord _

variable (poll : σ → Nat → Answer × σ)

/-- `RecordBoundedStream::poll_read` (record.rs:48-99). -/
def pollRead (rb : RecordBoundedStream σ) (n : Nat) : Answer × RecordBoundedStream σ :=
  if n = 0 then (.ready [], rb)
  else if rb.yieldAfterRecord then (.pending, { rb with yieldAfterRecord := false })
  else
    match poll rb.inner (rb.limit n) with
    | (.pending, inner) => (.pending, { rb with inner })
    | (.failed e, inner) => (.failed e, { rb with inner })
    | (.ready bytes, inner) =>
      if bytes.isEmpty then (.ready [], { rb with inner })
      else (.ready bytes, advance { rb with inner } bytes)

/-- What a read with room can do: wait after a record, pass on an answer without bytes, or
hand out bytes. -/
inductive Outcome (rb : RecordBoundedStream σ) (n : Nat) :
    Answer × RecordBoundedStream σ → Prop where
  | yields (hyield : rb.yieldAfterRecord = true) :
      Outcome rb n (.pending, { rb with yieldAfterRecord := false })
  | idle (r : Answer) (s : σ) (hyield : rb.yieldAfterRecord = false)
      (hpoll : poll rb.inner (rb.limit n) = (r, s)) (hnone : r.elements = []) :
      Outcome rb n (r, { rb with inner := s })
  | data (c : List Byte) (s : σ) (hyield : rb.yieldAfterRecord = false)
      (hpoll : poll rb.inner (rb.limit n) = (.ready c, s)) (hne : c ≠ []) :
      Outcome rb n (.ready c, advance { rb with inner := s } c)

theorem pollRead_outcome (rb : RecordBoundedStream σ) {n : Nat} (hn : 0 < n) :
    Outcome poll rb n (rb.pollRead poll n) := by
  unfold pollRead
  rw [if_neg (by omega)]
  split
  · exact .yields ‹_›
  rename_i hyield
  rw [Bool.not_eq_true] at hyield
  obtain ⟨⟨r, s⟩, hpoll⟩ : ∃ r, poll rb.inner (rb.limit n) = r := ⟨_, rfl⟩
  rw [hpoll]
  cases r with
  | pending | failed e => exact .idle _ s hyield hpoll rfl
  | ready c =>
    cases c with
    | nil => exact .idle _ s hyield hpoll rfl
    | cons b bs => exact .data _ s hyield hpoll (cons_ne_nil _ _)

end RecordBoundedStream

/-! ## Records -/

/-- A record: a header of five bytes, and a body as long as the last two of them say. -/
structure Record where
  bytes : List Byte
  length_bytes : bytes.length = 5 + bodyLength bytes

theorem bodyLength_append {l : List Byte} (h : 5 ≤ l.length) (rest : List Byte) :
    bodyLength (l ++ rest) = bodyLength l := by
  unfold bodyLength
  rw [getD_append _ _ _ _ (by omega), getD_append _ _ _ _ (by omega)]

namespace Record

/-- The first record of a stream can be told from the stream. -/
theorem take_append (r : Record) (rest : List Byte) :
    (r.bytes ++ rest).take (5 + bodyLength (r.bytes ++ rest)) = r.bytes := by
  have hlen := r.length_bytes
  rw [bodyLength_append (by omega), ← hlen, take_left]

theorem bytes_ne_nil (r : Record) : r.bytes ≠ [] := by
  have hlen := r.length_bytes
  exact ne_nil_of_length_pos (by omega)

/-- The bytes of some records. -/
def all (rs : List Record) : List Byte := rs.flatMap Record.bytes

theorem all_ne_nil {rs : List Record} (h : rs ≠ []) : all rs ≠ [] := by
  cases rs with
  | nil => exact absurd rfl h
  | cons r rs => exact append_ne_nil_of_left_ne_nil r.bytes_ne_nil _

/-- A stream that ends inside a record is not one of whole records. -/
theorem all_append_ne {part : List Byte} (hpart : part ≠ [])
    (hlen : part.length < 5 + bodyLength part) (rs rs' : List Record) :
    all rs ++ part ≠ all rs' := by
  intro heq
  induction rs generalizing rs' with
  | nil =>
    cases rs' with
    | nil => exact hpart heq
    | cons r rs' =>
      have hr := r.length_bytes
      change part = r.bytes ++ all rs' at heq
      rw [heq, bodyLength_append (by omega), length_append] at hlen
      omega
  | cons r rs ih =>
    cases rs' with
    | nil => exact all_ne_nil (cons_ne_nil r rs) (append_eq_nil_iff.mp heq).1
    | cons r' rs' =>
      change r.bytes ++ all rs ++ part = r'.bytes ++ all rs' at heq
      rw [append_assoc] at heq
      -- both records are the first one of the same stream
      have hfirst : r.bytes = r'.bytes := by
        rw [← r.take_append (all rs ++ part), heq, r'.take_append]
      rw [hfirst] at heq
      exact ih rs' (append_cancel_left heq)

end Record

/-- The bytes `c`, which come behind `before`, lie in the header or in the body of one
record. -/
inductive InOneRecord (before c : List Byte) : Prop where
  | header (rs : List Record) (part : List Byte) (hbefore : before = Record.all rs ++ part)
      (hlen : part.length + c.length ≤ 5) : InOneRecord before c
  | body (rs : List Record) (header part : List Byte) (hheader : header.length = 5)
      (hbefore : before = Record.all rs ++ (header ++ part))
      (hlen : part.length + c.length ≤ bodyLength header) : InOneRecord before c

/-! ## Where a stream stands -/

namespace RecordBoundedStream

variable {σ : Type*} {rb : RecordBoundedStream σ} {d c : List Byte} {n : Nat}

/-- The state after `d` has been delivered: in a header, or in a body of which something is
still to come. -/
inductive Place (header : List Byte) (remaining : Nat) (d : List Byte) : Prop where
  | header (rs : List Record) (hd : d = Record.all rs ++ header) (hlen : header.length < 5) :
      Place header remaining d
  | body (rs : List Record) (part : List Byte) (hd : d = Record.all rs ++ (header ++ part))
      (hlen : header.length = 5) (hleft : part.length + remaining = bodyLength header)
      (hpos : 0 < remaining) : Place header remaining d

/-- The place of a stream. -/
abbrev At (rb : RecordBoundedStream σ) (d : List Byte) : Prop :=
  Place rb.header rb.recordRemaining d

/-- The limit of a read is never zero. -/
theorem At.limit_pos (h : rb.At d) (hn : 0 < n) : 0 < rb.limit n := by
  cases h with
  | header rs hd hlen =>
    rw [limit_header hlen]
    omega
  | body rs part hd hlen hleft hpos =>
    rw [limit_body hlen]
    omega

theorem At.inOneRecord (h : rb.At d) (hc : c.length ≤ rb.limit n) : InOneRecord d c := by
  cases h with
  | header rs hd hlen =>
    rw [limit_header hlen] at hc
    exact .header rs rb.header hd (by omega)
  | body rs part hd hlen hleft hpos =>
    rw [limit_body hlen] at hc
    exact .body rs rb.header part hlen hd (by omega)

/-- Inside a record the delivered bytes are not those of whole records. -/
theorem At.ne_all (h : rb.At d) (hheader : rb.header ≠ []) (rs : List Record) :
    d ≠ Record.all rs := by
  cases h with
  | header rs' hd hlen =>
    rw [hd]
    exact Record.all_append_ne hheader (by omega) rs' rs
  | body rs' part hd hlen hleft hpos =>
    rw [hd]
    refine Record.all_append_ne (append_ne_nil_of_left_ne_nil hheader _) ?_ rs' rs
    rw [bodyLength_append (by omega), length_append]
    omega

/-- The header is complete, and of the body `part` has come: if it is all there, the record
ends. -/
theorem at_endRecord (rs : List Record) (part : List Byte)
    (hd : d = Record.all rs ++ (rb.header ++ part)) (hlen : rb.header.length = 5)
    (hleft : part.length + rb.recordRemaining = bodyLength rb.header) : rb.endRecord.At d := by
  unfold endRecord
  split
  · rename_i hzero
    have hrecord : (rb.header ++ part).length = 5 + bodyLength (rb.header ++ part) := by
      rw [bodyLength_append (by omega), length_append]
      omega
    refine .header (rs ++ [⟨rb.header ++ part, hrecord⟩]) ?_ (Nat.succ_pos 4)
    simp [hd, Record.all]
  · exact .body rs part hd hlen hleft (by omega)

/-- Bytes within the limit take the stream to the place behind them. -/
theorem At.advance (h : rb.At d) (hc : c.length ≤ rb.limit n) : (rb.advance c).At (d ++ c) := by
  unfold RecordBoundedStream.advance
  cases h with
  | header rs hd hlen =>
    rw [limit_header hlen] at hc
    rw [if_pos hlen]
    have hd' : d ++ c = Record.all rs ++ (rb.header ++ c) := by rw [hd, append_assoc]
    dsimp only
    split
    · rename_i hfull
      refine at_endRecord rs [] ?_ hfull (zero_add _)
      rwa [append_nil]
    · rename_i hshort
      rw [length_append] at hshort
      refine .header rs hd' ?_
      rw [length_append]
      omega
  | body rs part hd hlen hleft hpos =>
    rw [limit_body hlen] at hc
    rw [if_neg (by omega)]
    refine at_endRecord rs (part ++ c) (by simp [hd]) hlen ?_
    show (part ++ c).length + (rb.recordRemaining - c.length) = bodyLength rb.header
    rw [length_append]
    omega

theorem header_endRecord_ne_nil (hne : rb.header ≠ [])
    (hyield : rb.endRecord.yieldAfterRecord = false) : rb.endRecord.header ≠ [] := by
  unfold endRecord at hyield ⊢
  split at hyield
  · cases hyield
  · rwa [if_neg ‹_›]

/-- Behind the bytes of a read, a stream that is not to wait is inside a record. -/
theorem header_advance_ne_nil (hc : c ≠ []) (hyield : (rb.advance c).yieldAfterRecord = false) :
    (rb.advance c).header ≠ [] := by
  have hcons : rb.header ++ c ≠ [] := append_ne_nil_of_right_ne_nil _ hc
  unfold advance at hyield ⊢
  by_cases hlen : rb.header.length < 5
  · rw [if_pos hlen] at hyield ⊢
    dsimp only at hyield ⊢
    split at hyield
    · rw [if_pos ‹_›]
      exact header_endRecord_ne_nil hcons hyield
    · rwa [if_neg ‹_›]
  · rw [if_neg hlen] at hyield ⊢
    refine header_endRecord_ne_nil (ne_nil_of_length_pos ?_) hyield
    exact lt_of_lt_of_le (by decide) (not_lt.mp hlen)

/-! ## Runs -/

/-- There has been a wait behind the last bytes. -/
def Waited (before : List Answer) : Prop :=
  ∃ earlier later, before = earlier ++ .pending :: later ∧ Reader.delivered later = []

variable {poll : σ → Nat → Answer × σ} {Has : σ → List Byte → Prop} {inner : σ}
  {before : List Answer}

/-- A stream over `inner` that has given the answers `before`. -/
structure Reached (Has : σ → List Byte → Prop) (inner : σ) (rb : RecordBoundedStream σ)
    (before : List Answer) : Prop where
  place : rb.At (Reader.delivered before)
  has {b : List Byte} (hb : Has rb.inner b) : Has inner (Reader.delivered before ++ b)
  waited (hyield : rb.yieldAfterRecord = false) {rs : List Record} (hrs : rs ≠ [])
    (hall : Reader.delivered before = Record.all rs) : Waited before

theorem Waited.concat {r : Answer} (h : Waited before)
    (hr : r.elements = []) : Waited (before ++ [r]) := by
  obtain ⟨earlier, later, rfl, hlater⟩ := h
  exact ⟨earlier, later ++ [r], by simp, by simp [hlater, hr]⟩

theorem waited_pending (before : List Answer) : Waited (before ++ [.pending]) :=
  ⟨before, [], rfl, rfl⟩

theorem reached_new (inner : σ) : Reached Has inner (new inner) [] where
  place := .header [] rfl (Nat.succ_pos 4)
  has hb := hb
  waited _ _ hrs hall := absurd hall.symm (Record.all_ne_nil hrs)

theorem Reached.read (hinner : Streams poll Has) (h : Reached Has inner rb before)
    (hn : 0 < n) :
    Reached Has inner (rb.pollRead poll n).2 (before ++ [(rb.pollRead poll n).1]) := by
  have hlimit := h.place.limit_pos hn
  have hroom := hinner.room rb.inner hlimit
  have hfront := fun b : List Byte => @Reader.Streams.front _ _ _ _ _ hinner rb.inner _ hlimit b
  have hout := pollRead_outcome poll rb hn
  generalize rb.pollRead poll n = r at hout ⊢
  cases hout with
  | yields hyield =>
    refine ⟨?_, fun hb => ?_, fun _ _ _ _ => waited_pending before⟩
    · simpa [Poll.elements] using h.place
    · simpa [Poll.elements] using h.has hb
  | idle r s hyield hpoll hnone =>
    rw [hpoll] at hfront
    refine ⟨?_, fun {b} hb => ?_, fun _ rs hrs hall => ?_⟩
    · simpa [hnone] using h.place
    · simpa [hnone] using h.has (hfront b hb)
    · exact (h.waited hyield hrs (by simpa [hnone] using hall)).concat hnone
  | data c s hyield hpoll hne =>
    rw [hpoll] at hroom hfront
    have hplace : (advance { rb with inner := s } c).At _ := At.advance h.place hroom
    refine ⟨?_, fun {b} hb => ?_, fun hgo rs hrs hall => ?_⟩
    · simpa [Poll.elements] using hplace
    · rw [inner_advance] at hb
      simpa [Poll.elements] using h.has (hfront b hb)
    · refine absurd ?_ (hplace.ne_all (header_advance_ne_nil hne hgo) rs)
      simpa [Poll.elements] using hall

/-- The stream after reads of the given sizes. -/
theorem reached_after (hinner : Streams poll Has) (inner : σ) (sizes : List Nat)
    (hsizes : ∀ n ∈ sizes, 0 < n) :
    Reached Has inner (Reader.after (pollRead poll) (new inner) sizes)
      (answers (pollRead poll) (new inner) sizes) := by
  induction sizes using List.reverseRecOn with
  | nil => exact reached_new inner
  | append_singleton sizes n ih =>
    rw [after_concat, answers_concat]
    have hbefore := ih fun k hk => hsizes k (mem_append_left _ hk)
    exact hbefore.read hinner (hsizes n (mem_append_right _ (mem_singleton_self n)))

/-- What the answer to a read with room for `n` bytes keeps to, behind the answers `before`. -/
structure Bounded (poll : σ → Nat → Answer × σ) (rb : RecordBoundedStream σ)
    (before : List Answer) (n : Nat) (answer : Answer) : Prop where
  /-- The inner stream is never asked for nothing. -/
  limit_pos : 0 < rb.limit n
  /-- The bytes lie in one header or in one body. -/
  inOneRecord : InOneRecord (Reader.delivered before) answer.elements
  /-- The first bytes of a record do not come before a wait behind the last record. -/
  waited : answer.elements ≠ [] → ∀ rs : List Record, rs ≠ [] →
    Reader.delivered before = Record.all rs → Waited before
  /-- An empty answer is the one of an inner stream that has been asked for something. -/
  ended : answer = .ready [] → (poll rb.inner (rb.limit n)).1 = .ready []

theorem Reached.bounded (hinner : Streams poll Has) (h : Reached Has inner rb before)
    (hn : 0 < n) : Bounded poll rb before n (rb.pollRead poll n).1 := by
  have hlimit := h.place.limit_pos hn
  have hroom := hinner.room rb.inner hlimit
  have hnothing : InOneRecord (delivered before) [] :=
    h.place.inOneRecord (Nat.zero_le (rb.limit n))
  have hout := pollRead_outcome poll rb hn
  generalize rb.pollRead poll n = r at hout ⊢
  cases hout with
  | yields hyield => exact ⟨hlimit, hnothing, fun hne => absurd rfl hne, nofun⟩
  | idle r s hyield hpoll hnone =>
    refine ⟨hlimit, ?_, fun hne => absurd hnone hne, fun hempty => ?_⟩
    · rwa [hnone]
    · rwa [hpoll]
  | data c s hyield hpoll hne =>
    rw [hpoll] at hroom
    refine ⟨hlimit, h.place.inOneRecord hroom, fun _ rs hrs hall => h.waited hyield hrs hall, ?_⟩
    intro hempty
    cases hempty
    exact absurd rfl hne

/-- **Reads never cross a record.** Over every inner stream, however it cuts its bytes, and for
reads of all sizes, what is delivered is a beginning of the inner stream, and each read keeps to
the records of it. -/
theorem reads_stay_in_records (hinner : Streams poll Has) (inner : σ) (sizes : List Nat)
    (hsizes : ∀ n ∈ sizes, 0 < n) :
    Has inner (delivered (answers (pollRead poll) (new inner) sizes)) ∧
      ∀ earlier n later, sizes = earlier ++ n :: later →
        let rb := Reader.after (pollRead poll) (new inner) earlier
        Bounded poll rb (answers (pollRead poll) (new inner) earlier) n
          (rb.pollRead poll n).1 := by
  constructor
  · have hreached := reached_after hinner inner sizes hsizes
    have hbegin := hreached.has (hinner.nothing _)
    rwa [append_nil] at hbegin
  · rintro earlier n later rfl
    have hearlier : ∀ k ∈ earlier, 0 < k := fun k hk => hsizes k (mem_append_left _ hk)
    have hn : 0 < n := hsizes n (mem_append_right _ mem_cons_self)
    exact (reached_after hinner inner earlier hearlier).bounded hinner hn

/-- A record of one byte and an empty one, of which the inner stream has cut the first. -/
def twoRecords : Source IoError Byte :=
  ⟨[.data 23 [3], .pending, .data 3 [0, 1, 7, 23, 3, 3], .data 0 [0]], .eof⟩

theorem reads_stay_in_records_twoRecords :
    answers (pollRead Source.poll) (new twoRecords) [4, 9, 9, 9, 9, 9, 9, 9, 9] =
        [.ready [23, 3], .pending, .ready [3, 0, 1], .ready [7], .pending, .ready [23, 3, 3],
          .ready [0, 0], .pending, .ready []] ∧
      delivered (answers (pollRead Source.poll) (new twoRecords)
        [4, 9, 9, 9, 9, 9]) <+: twoRecords.bytes ∧
      Waited (answers (pollRead Source.poll) (new twoRecords) [4, 9, 9, 9, 9]) := by
  have hrun := reads_stay_in_records Source.streams twoRecords [4, 9, 9, 9, 9, 9] (by decide)
  have hread := hrun.2 [4, 9, 9, 9, 9] 9 [] rfl
  refine ⟨by decide, hrun.1, hread.waited (by decide) [⟨[23, 3, 3, 0, 1, 7], rfl⟩] ?_ ?_⟩
  · exact cons_ne_nil _ _
  · decide

end RecordBoundedStream

end ClashMeta.Tls
