import ClashMeta.Protocol.Vision.Grammar

/-!
# What a Vision reader delivers

`poll_read` can be suspended anywhere: inside the UUID, a header, content or
padding, and after every 64 frames. `Ahead` says what each such state stands for,
as a function of the bytes the inner stream still carries; one poll keeps it
(`pollLoop_step`), so `VisionStream` is a reader of `unpad` (`reads`), however the
bytes arrive and whatever the sizes of the buffers.
-/

namespace ClashMeta.Vision

open List Bool VisionStream Reader

open Vless (ResponseStream stripResponse)

/-- The stream under the framing still carries `bytes`, then finishes with `fin`. -/
def Carries : ResponseStream RecordStream → List Byte → Finish → Nat → Prop :=
  ResponseStream.Strips fun s => s.carried.source.Holds

theorem RecordStream.reads : Reads RecordStream.pollRead fun s => s.carried.source.Holds where
  noRoom _ := rfl
  step {s _ _ _ _} h hn :=
    (Source.reads.step h hn).map (fun t => { s with carried.source := t }) fun h' => h'

theorem carries_reads : Reads (ResponseStream.pollRead RecordStream.pollRead) Carries :=
  ResponseStream.reads RecordStream.reads

/-- A read does not touch the writing end. -/
theorem sink_pollRead (s : ResponseStream RecordStream) (n : Nat) :
    (s.pollRead RecordStream.pollRead n).2.inner.carried.sink = s.inner.carried.sink :=
  (ResponseStream.pollRead_spec
    (P := fun t : RecordStream => t.carried.sink = s.inner.carried.sink) (Q := fun _ => True)
    (fun _ _ h => h) (fun _ _ _ => trivial) rfl n).1

theorem sink_pull (cap left : Nat) (s : ResponseStream RecordStream) :
    (Reader.pull (ResponseStream.pollRead RecordStream.pollRead) cap left left
      s).2.2.inner.carried.sink = s.inner.carried.sink :=
  (pull_spec
    (P := fun t : ResponseStream RecordStream => t.inner.carried.sink = s.inner.carried.sink)
    (Q := fun _ => True) (fun t n h => (sink_pollRead t n).trans h) (fun _ _ _ => trivial) cap
    (Nat.le_refl left) rfl).1

namespace VisionStream

/-! ## What a state stands for -/

/-- What follows when a header comes next. -/
def fromHeader (v : VisionStream) (bytes : List Byte) : List Byte × Finish :=
  if v.readFirst then unpad v.id bytes else decodeFrames bytes

/-- The reader is inside a frame, in its content or its padding. -/
structure InFrame (v : VisionStream) : Prop where
  plain : v.readPlain = false
  first : v.readFirst = false
  header : v.readHeader = []

/-- The reader collects a header. -/
structure AtHeader (v : VisionStream) : Prop where
  plain : v.readPlain = false
  content : v.content = 0
  padding : v.padding = 0
  command : v.command = 0
  length : v.readHeader.length < v.need

/-- What a reader that still gets `bytes` will make of them. -/
inductive Ahead (v : VisionStream) (bytes : List Byte) : List Byte × Finish → Prop where
  | plain (hplain : v.readPlain = true) : Ahead v bytes (v.readHeader ++ bytes, .eof)
  | frame (hin : InFrame v) : Ahead v bytes (inFrame v.content v.padding v.command bytes)
  | header (hat : AtHeader v) : Ahead v bytes (v.fromHeader (v.readHeader ++ bytes))

/-- Nothing has failed, the sink will not, and `bytes` are still to come within `k` polls. -/
structure Going (v : VisionStream) (bytes : List Byte) (k : Nat) : Prop where
  notFailed : v.failed = false
  healthy : v.sink.Healthy
  carries : Carries v.inner bytes .eof k

/-- A bound on the polls to come when the inner stream needs `k`. Bytes collected as a first
header may have to be handed out one by one. -/
def budget (v : VisionStream) (k : Nat) : Nat :=
  if v.readPlain then k + v.readHeader.length
  else if v.readFirst ∧ k ≠ 0 then k + 21
  else k

/-- What a `VisionStream` stands for as a reader. -/
inductive Decodes (v : VisionStream) : List Byte → Finish → Nat → Prop where
  | failed (m : Nat) (hfailed : v.failed = true) : Decodes v [] .error m
  | going (bytes out : List Byte) (fin : Finish) (k m : Nat) (hgoing : Going v bytes k)
      (hahead : Ahead v bytes (out, fin)) (hm : v.budget k ≤ m) : Decodes v out fin m

variable (v : VisionStream)

/-- The inner stream's polls are within the bound. -/
theorem le_budget (k : Nat) : k ≤ v.budget k := by
  unfold budget
  split
  · omega
  · split <;> omega

theorem need_pos : 0 < v.need := by
  unfold need
  split <;> omega

/-- A stream may end before a header. -/
theorem fromHeader_nil : v.fromHeader [] = ([], .eof) := by
  unfold fromHeader unpad
  split <;> simp

/-- It may not end inside one. -/
theorem fromHeader_short {bytes : List Byte} (hne : bytes ≠ [])
    (h : bytes.length < v.need) : v.fromHeader bytes = ([], .error) := by
  unfold fromHeader
  unfold need at h
  by_cases hfirst : v.readFirst = true
  · rw [if_pos hfirst] at h ⊢
    rw [unpad, if_neg hne, if_pos h]
  · rw [if_neg hfirst] at h ⊢
    exact decodeFrames_short hne h

/-- Without the UUID at its start the stream is payload. -/
theorem fromHeader_unframed (hfirst : v.readFirst)
    (hlen : v.readHeader.length = v.need) (hid : v.readHeader.take 16 ≠ v.id.toList)
    (bytes : List Byte) :
    v.fromHeader (v.readHeader ++ bytes) = (v.readHeader ++ bytes, .eof) := by
  rw [need, if_pos hfirst] at hlen
  have htake : (v.readHeader ++ bytes).take 16 = v.readHeader.take 16 :=
    take_append_of_le_length (by omega)
  rw [fromHeader, if_pos hfirst, unpad, if_neg (by simp [← length_eq_zero_iff, hlen]),
    if_neg (by rw [length_append]; omega), if_pos (by rwa [htake])]

/-- A header that is complete, behind the UUID if it is the first, starts a frame. -/
theorem fromHeader_framed (hlen : v.readHeader.length = v.need)
    (hid : ¬(v.readFirst = true ∧ v.readHeader.take 16 ≠ v.id.toList)) (bytes : List Byte) :
    (v.readHeader.drop (if v.readFirst then 16 else 0)).length = 5 ∧
      v.fromHeader (v.readHeader ++ bytes) =
        decodeFrames (v.readHeader.drop (if v.readFirst then 16 else 0) ++ bytes) := by
  unfold need at hlen
  unfold fromHeader
  by_cases hfirst : v.readFirst = true
  · rw [if_pos hfirst] at hlen ⊢
    have hid' : v.readHeader.take 16 = v.id.toList := by
      by_contra hne
      exact hid ⟨hfirst, hne⟩
    have htake : (v.readHeader ++ bytes).take 16 = v.id.toList := by
      rw [take_append_of_le_length (by omega), hid']
    refine ⟨by rw [length_drop, hlen], ?_⟩
    rw [if_pos hfirst, unpad, if_neg (by simp [← length_eq_zero_iff, hlen]),
      if_neg (by rw [length_append]; omega), if_neg (not_not.mpr htake),
      drop_append_of_le_length (by omega)]
  · rw [if_neg hfirst] at hlen ⊢
    exact ⟨hlen, if_neg hfirst⟩

variable {v} {w : VisionStream} {bytes : List Byte} {k n m : Nat}

/-- A poll of the inner stream lowers the bound. -/
theorem budget_lt {j : Nat} (hv : v.readPlain = false) (hw : w.readPlain = false)
    (hfirst : w.readFirst = v.readFirst) (hjk : j < k) :
    w.budget j < v.budget k := by
  simp only [budget, hv, hw, hfirst, false_eq_true, if_false]
  by_cases h : v.readFirst = true
  · rw [if_pos (⟨h, by omega⟩ : v.readFirst = true ∧ k ≠ 0)]
    split <;> omega
  · rw [if_neg fun hc => h hc.1, if_neg fun hc => h hc.1]
    exact hjk

theorem InFrame.budget_le (hin : InFrame v) (k : Nat) : v.budget k ≤ k := by
  simp [budget, hin.plain, hin.first]

/-- Behind its content a frame goes on with its padding. -/
theorem InFrame.padding (hin : InFrame v) (hcontent : v.content = 0)
    (bytes : List Byte) : Ahead v bytes (inPadding v.padding v.command bytes) := by
  have h : Ahead v bytes _ := .frame hin
  rwa [hcontent] at h

/-- Reading leaves the sink alone. -/
theorem Going.next {bytes' : List Byte} {k' : Nat} (h : Going v bytes k)
    (hfailed : w.failed = v.failed) (hs : Carries w.inner bytes' .eof k')
    (hsink : w.inner.inner.carried.sink = v.inner.inner.carried.sink) : Going w bytes' k' := by
  refine ⟨hfailed.trans h.notFailed, ?_, hs⟩
  rw [sink, hsink]
  exact h.healthy

/-! ## The parts of a poll -/

/-- The stream ends while a header is collected. -/
theorem Going.headerEnd (h : Going v [] 0) (hat : AtHeader v) :
    Decodes v (v.fromHeader v.readHeader).1 (v.fromHeader v.readHeader).2 0 := by
  have hahead : Ahead v [] (v.fromHeader (v.readHeader ++ [])) := .header hat
  rw [append_nil] at hahead
  exact .going [] _ _ 0 0 h hahead (by simp [budget, hat.plain])

theorem skipPadding_none (h : v.padding = 0) : v.skipPadding = (.ready true, v) := by
  obtain ⟨inner, id, readHeader, readFirst, content, padding⟩ := v
  subst h
  rfl

/-- `loop` goes on inside a frame, with less than `m` polls to come. -/
def Resumes (loop : VisionStream → Poll IoError (List Byte) × VisionStream) (m n : Nat) : Prop :=
  ∀ (w : VisionStream) (bytes : List Byte) (j : Nat), Going w bytes j → InFrame w → j < m →
    Reader.Step Decodes (inFrame w.content w.padding w.command bytes).1
      (inFrame w.content w.padding w.command bytes).2 m n (loop w)

section

variable (h : Going v bytes k) (hn : 0 < n)
include h hn

/-- Bytes that were collected as a header and are none are handed out. -/
theorem takeHeader_step (hplain : v.readPlain) (hne : v.readHeader ≠ []) :
    Step Decodes (v.readHeader ++ bytes) .eof (k + v.readHeader.length) n
      (v.takeHeader n) := by
  have hlen := length_pos_of_ne_nil hne
  have htake : (v.readHeader.take n).length = min n v.readHeader.length := length_take
  refine .data (v.readHeader.take n) (v.readHeader.drop n ++ bytes) _
    (k + (v.readHeader.length - n)) ?_ (by omega) ?_ (by omega) ?_
  · rw [ne_eq, ← length_eq_zero_iff]
    omega
  · rw [← append_assoc, take_append_drop]
  · refine .going bytes _ _ k _ ⟨h.notFailed, h.healthy, h.carries⟩ (.plain hplain) ?_
    rw [budget, if_pos hplain]
    rw [length_drop]

/-- A read without framing. -/
theorem readOn_step (hplain : v.readPlain) :
    Step Decodes (v.readHeader ++ bytes) .eof (k + v.readHeader.length) n
      (v.readOn n) := by
  by_cases hheader : v.readHeader = []
  · rw [readOn, hheader]
    refine (carries_reads.step h.carries hn).map (fun s => { v with inner := s }) ?_
    intro rest j hs
    -- the next state stands for what the inner stream still carries
    have hahead : Ahead { v with inner := (v.inner.pollRead RecordStream.pollRead n).2 } rest
        (v.readHeader ++ rest, .eof) := .plain hplain
    rw [show v.readHeader ++ rest = rest by rw [hheader, nil_append]] at hahead
    refine .going rest rest .eof j j (h.next rfl hs (sink_pollRead v.inner n)) hahead ?_
    rw [budget, if_pos hplain, hheader]
    exact le_rfl
  · rw [readOn, if_pos hheader]
    exact takeHeader_step h hn hplain hheader

/-- A read inside the content of a frame. -/
theorem readContent_step (hin : InFrame v) (hcontent : 0 < v.content) :
    Step Decodes (inFrame v.content v.padding v.command bytes).1
      (inFrame v.content v.padding v.command bytes).2 k n (v.readContent n) := by
  have hstep := carries_reads.step (n := min n v.content) h.carries (by omega)
  have hsink := sink_pollRead v.inner (min n v.content)
  unfold readContent readInner
  generalize v.inner.pollRead RecordStream.pollRead (min n v.content) = r at hstep hsink ⊢
  cases hstep with
  | pending s j hj h' =>
    have hin' : InFrame { v with inner := s } := ⟨hin.1, hin.2, hin.3⟩
    exact .pending _ j hj (.going bytes _ _ j j (h.next rfl h' hsink) (.frame hin')
      (hin'.budget_le j))
  | data c rest s j hne hle hout hj h' =>
    obtain ⟨b, bs, rfl⟩ := exists_cons_of_ne_nil hne
    rw [hout, inFrame_content (by omega)]
    exact .data (b :: bs) _ _ j hne (by omega) rfl hj (.going rest _ _ j j (h.next rfl h' hsink)
      (.frame ⟨hin.1, hin.2, hin.3⟩) (InFrame.budget_le ⟨hin.1, hin.2, hin.3⟩ j))
  | eof s hout hfin h' =>
    have hshort : inFrame v.content v.padding v.command [] = ([], .error) := if_pos hcontent
    have hin' : InFrame { v with inner := s } := ⟨hin.1, hin.2, hin.3⟩
    have hahead : Ahead { v with inner := s } [] _ := .frame hin'
    rw [hshort] at hahead
    rw [hout, hshort]
    exact .error _ _ rfl rfl (.going [] _ _ 0 0 (h.next rfl h' hsink) hahead (hin'.budget_le 0))
  | error e s hout hfin h' => cases hfin

/-- Behind a last frame the stream goes on unframed. -/
theorem nextFrame_plain (loop : VisionStream → Poll IoError (List Byte) × VisionStream)
    (hcommand : v.command ≠ 0) (hheader : v.readHeader = []) :
    Step Decodes bytes .eof k n (v.nextFrame loop n) := by
  have hon : ∀ w : VisionStream, Going w bytes k → w.readPlain = true → w.readHeader = [] →
      Step Decodes bytes .eof k n (w.readOn n) := by
    intro w hw hplain hnil
    have hstep := readOn_step hw hn hplain
    rwa [hnil] at hstep
  unfold nextFrame
  by_cases htwo : v.command = 2
  · rw [if_pos htwo]
    -- what the inner stream carries does not depend on the switch
    have hcarries : Carries
        { v.inner with inner := { v.inner.inner with readDirect := true } } bytes .eof k :=
      ResponseStream.Strips.replace h.carries fun hs => hs
    exact hon _ ⟨h.notFailed, h.healthy, hcarries⟩ rfl hheader
  · rw [if_neg htwo, if_pos hcommand]
    exact hon _ ⟨h.notFailed, h.healthy, h.carries⟩ rfl hheader

variable {loop : VisionStream → Poll IoError (List Byte) × VisionStream}
  (hloop : Resumes loop m n)
include hloop

/-- With its header complete a frame begins, or the stream turns out to be unframed. -/
theorem openFrame_step (hplain : v.readPlain = false) (hlen : v.readHeader.length = v.need)
    (hm : v.readFirst = true → k + 21 ≤ m) (hkm : k < m) :
    Step Decodes (v.fromHeader (v.readHeader ++ bytes)).1
      (v.fromHeader (v.readHeader ++ bytes)).2 m n (v.openFrame loop n) := by
  unfold openFrame
  by_cases hmatch : v.readFirst = true ∧ v.readHeader.take 16 ≠ v.id.toList
  · rw [if_pos hmatch, v.fromHeader_unframed hmatch.1 hlen hmatch.2]
    have hgoing : Going { v with readFirst := false, readPlain := true } bytes k :=
      ⟨h.notFailed, h.healthy, h.carries⟩
    rw [need, if_pos hmatch.1] at hlen
    have hne : v.readHeader ≠ [] := by simp [← length_eq_zero_iff, hlen]
    refine (takeHeader_step hgoing hn rfl hne).mono ?_
    rw [hlen]
    exact hm hmatch.1
  · obtain ⟨hhead, hout⟩ := v.fromHeader_framed hlen hmatch bytes
    rw [if_neg hmatch, hout]
    generalize v.readHeader.drop (if v.readFirst then 16 else 0) = header at hhead ⊢
    match header, hhead with
    | [command, c1, c0, p1, p0], _ =>
      simp only [cons_append, nil_append, decodeFrames_header, getD_cons_zero, getD_cons_succ]
      by_cases hcommand : 2 < command
      · rw [if_pos hcommand, if_pos hcommand]
        exact .error _ _ rfl rfl (.failed 0 rfl)
      · rw [if_neg hcommand, if_neg hcommand]
        exact hloop { v with
            readFirst := false
            command := command
            content := fromBe16 c1 c0
            padding := fromBe16 p1 p0
            readHeader := [] } bytes k
          ⟨h.notFailed, h.healthy, h.carries⟩ ⟨hplain, rfl, rfl⟩ hkm

/-- A header is collected: it becomes complete, or the stream ends or waits inside it. -/
theorem nextFrame_header (hat : AtHeader v) (hm : v.budget k ≤ m) :
    Step Decodes (v.fromHeader (v.readHeader ++ bytes)).1
      (v.fromHeader (v.readHeader ++ bytes)).2 m n (v.nextFrame loop n) := by
  have hlen := hat.length
  have hpull := carries_reads.pull v.need v.need_pos (Nat.le_refl (v.need - v.readHeader.length))
    h.carries
  have hsink := sink_pull v.need (v.need - v.readHeader.length) v.inner
  unfold nextFrame fillHeader
  rw [if_neg (by rw [hat.command]; decide), if_neg (not_not.mpr hat.command)]
  generalize Reader.pull _ v.need (v.need - v.readHeader.length)
    (v.need - v.readHeader.length) v.inner = r at hpull hsink ⊢
  cases hpull with
  | full s j hle hj h' =>
    have hfull : (v.readHeader ++ bytes.take (v.need - v.readHeader.length)).length = v.need := by
      rw [length_append, length_take]
      omega
    have hgoing : Going { v with
          inner := s
          readHeader := v.readHeader ++ bytes.take (v.need - v.readHeader.length) }
        (bytes.drop (v.need - v.readHeader.length)) j := h.next rfl h' hsink
    have hkm := v.le_budget k
    rw [append_take_drop _ _ (v.need - v.readHeader.length)]
    refine openFrame_step hgoing hn hloop hat.plain hfull ?_ (by omega)
    -- for a first header the bound has 21 polls to spare
    intro hfirst
    have hk : v.budget k = k + 21 := by
      simp only [budget, hat.plain, false_eq_true, if_false]
      rw [if_pos ⟨hfirst, by omega⟩]
    omega
  | short s hlt hfin h' =>
    have hshort : (v.readHeader ++ bytes).length < v.need := by
      rw [length_append]
      omega
    have hgoing : Going { v with inner := s, readHeader := v.readHeader ++ bytes } [] 0 :=
      h.next rfl h' hsink
    have hnext := hgoing.headerEnd { hat with length := hshort }
    change Decodes _ (v.fromHeader (v.readHeader ++ bytes)).1
      (v.fromHeader (v.readHeader ++ bytes)).2 0 at hnext
    -- between two frames this is the end, inside a header it is an error
    by_cases hnil : v.readHeader ++ bytes = []
    · rw [hnil, fromHeader_nil] at hnext
      simp only [hnil, fromHeader_nil, if_true]
      exact .eof _ rfl rfl hnext
    · rw [fromHeader_short v hnil hshort] at hnext
      simp only [hnil, fromHeader_short v hnil hshort, if_false]
      exact .error _ _ rfl rfl hnext
  | pending j s k' hj hlt hk' h' =>
    rw [append_take_drop _ _ j]
    refine .pending _ _ ?_ (.going _ _ _ k' _ (h.next rfl h' hsink)
      (.header { hat with length := ?_ }) le_rfl)
    · exact lt_of_lt_of_le (budget_lt hat.plain hat.plain rfl (by omega)) hm
    · show (v.readHeader ++ bytes.take j).length < v.need
      rw [length_append, length_take]
      omega
  | error e s hlt hfin h' => cases hfin

/-- The padding is passed over, and the next frame begins. -/
theorem passPadding_step (hin : InFrame v) (hcontent : v.content = 0) (hm : k ≤ m) :
    Step Decodes (inPadding v.padding v.command bytes).1
      (inPadding v.padding v.command bytes).2 m n (v.passPadding loop n) := by
  have hpull := carries_reads.pull 2048 (by omega) (Nat.le_refl v.padding) h.carries
  have hsink := sink_pull 2048 v.padding v.inner
  unfold passPadding skipPadding
  generalize Reader.pull _ 2048 v.padding v.padding v.inner = p at hpull hsink ⊢
  cases hpull with
  | full s j hle hj h' =>
    have hgoing : Going { v with inner := s, padding := 0 } (bytes.drop v.padding) j :=
      h.next rfl h' hsink
    have hin' : InFrame { v with inner := s, padding := 0 } := ⟨hin.1, hin.2, hin.3⟩
    have hpadding : v.padding - (bytes.take v.padding).length = 0 := by
      rw [length_take]
      omega
    have hrest : inPadding v.padding v.command bytes =
        behind v.command (bytes.drop v.padding) := if_neg (by omega)
    dsimp only
    rw [hrest, hpadding]
    -- command 0 lets a header follow, any other ends the framing
    by_cases hcommand : v.command = 0
    · have hat : AtHeader { v with inner := s, padding := 0 } :=
        ⟨hin.plain, hcontent, rfl, hcommand, by rw [hin'.header]; exact need_pos _⟩
      have hnext := nextFrame_header hgoing hn hloop hat
        (le_trans (hin'.budget_le j) (by omega))
      rw [behind, if_pos hcommand]
      simpa only [fromHeader, hin.first, false_eq_true, if_false, hin.header,
        nil_append] using hnext
    · rw [behind, if_neg hcommand]
      exact (nextFrame_plain hgoing hn _ hcommand hin.header).mono (by omega)
  | short s hlt hfin h' =>
    rw [inPadding_short hlt]
    have hin' : InFrame { v with inner := s, padding := v.padding - bytes.length } :=
      ⟨hin.1, hin.2, hin.3⟩
    have hahead := hin'.padding hcontent []
    rw [inPadding_short (Nat.sub_pos_of_lt hlt)] at hahead
    exact .error _ _ rfl rfl (.going [] _ _ 0 0 (h.next rfl h' hsink) hahead (hin'.budget_le 0))
  | pending j s k' hj hlt hk' h' =>
    dsimp only
    rw [length_take_of_le hj, ← inPadding_drop (le_of_lt hlt) hj]
    have hin' : InFrame { v with inner := s, padding := v.padding - j } := ⟨hin.1, hin.2, hin.3⟩
    exact .pending _ k' (by omega) (.going _ _ _ k' k' (h.next rfl h' hsink)
      (hin'.padding hcontent _) (hin'.budget_le k'))
  | error e s hlt hfin h' => cases hfin

end

variable {r : List Byte × Finish}

/-- **The loop of `poll_read`**, with room for a byte. -/
theorem pollLoop_step (frames : Nat) (h : Going v bytes k) (hahead : Ahead v bytes r)
    (hm : v.budget k ≤ m) (hyield : frames = 0 → v.budget k < m) (hn : 0 < n) :
    Step Decodes r.1 r.2 m n (pollLoop frames v n) := by
  -- every turn opens a frame, which takes bytes: so the bound has gone down at a yield
  induction frames generalizing v bytes k r with
  | zero => exact .pending v _ (hyield rfl) (.going bytes _ _ k _ h hahead le_rfl)
  | succ frames ih =>
    have hloop : Resumes (fun w => pollLoop frames w n) m n := by
      intro w bytes j hw hin hj
      have hb := hin.budget_le j
      exact ih hw (.frame hin) (by omega) (by omega)
    have hkm := v.le_budget k
    rw [pollLoop]
    cases hahead with
    | plain hplain =>
      rw [budget, if_pos hplain] at hm
      rw [if_pos hplain]
      exact (readOn_step h hn hplain).mono hm
    | frame hin =>
      rw [if_neg (by simp [hin.plain])]
      by_cases hcontent : 0 < v.content
      · rw [if_pos hcontent]
        exact (readContent_step h hn hin hcontent).mono (by omega)
      · have hzero : v.content = 0 := by omega
        rw [hzero]
        exact passPadding_step h hn hloop hin hzero (by omega)
    | header hat =>
      rw [if_neg (by simp [hat.plain]), if_neg (by simp [hat.content]), passPadding,
        skipPadding_none hat.padding]
      exact nextFrame_header h hn hloop hat hm

/-! ## Whole polls -/

/-- What `flush_frame` can do: wait or fail with a part of the buffer written, or write out
the buffer and make the switch that was due. -/
inductive Flush (v : VisionStream) : Poll IoError Unit × VisionStream → Prop where
  | stops (r : Poll IoError Unit) (m : Nat) (sink : Sink IoError Byte) (hr : r ≠ .ready ())
      (hfine : v.sink.Healthy → sink.Healthy ∧ ∀ e, r ≠ .failed e)
      (haccepted : sink.accepted = v.sink.accepted ++ (v.pending.drop v.written).take m) :
      Flush v (r, { v.withSink sink with written := v.written + m })
  | done (sink : Sink IoError Byte) (hfine : v.sink.Healthy → sink.Healthy)
      (haccepted : sink.accepted = v.sink.accepted ++ v.pending.drop v.written) :
      Flush v (.ready (), { v.withSink sink with
        inner := { v.inner with inner := { v.inner.inner with
          carried := { v.inner.inner.carried with sink }
          writeDirect := v.inner.inner.writeDirect || v.switchWrite } }
        pending := []
        written := 0
        switchWrite := false })

/-- **A flush** does one of these. -/
theorem flushFrame_cases (v : VisionStream) : Flush v v.flushFrame := by
  have hfine : v.sink.Healthy → _ := fun hs =>
    hs.writeAll .writeZero (v.pending.drop v.written).length (v.pending.drop v.written)
  obtain ⟨haccepted, -, hdone⟩ := Sink.writeAll_accepted .writeZero
    (v.pending.drop v.written).length v.sink (v.pending.drop v.written)
  unfold flushFrame
  dsimp only
  generalize v.sink.writeAll .writeZero (v.pending.drop v.written).length
    (v.pending.drop v.written) = w at hfine haccepted hdone ⊢
  obtain ⟨r, m, sink⟩ := w
  cases r with
  | pending | failed e => exact .stops _ m sink nofun hfine haccepted
  | ready u =>
    have hflush : v.sink.Healthy → _ := fun hs => (hfine hs).1.flush
    have hsame : sink.flush.2.accepted = _ := sink.flush_accepted.trans haccepted
    dsimp only
    generalize sink.flush = f at hflush hsame ⊢
    obtain ⟨r, sink'⟩ := f
    cases r with
    | pending | failed e => exact .stops _ m sink' nofun hflush hsame
    | ready u =>
      rw [hdone rfl, take_length] at hsame
      have hflushed := Flush.done sink' (fun hs => (hflush hs).1) hsame
      show Flush v (if v.switchWrite = true then _ else _)
      by_cases hswitch : v.switchWrite = true
      · rw [if_pos hswitch]
        rwa [hswitch, Bool.or_true] at hflushed
      · rw [not_eq_true] at hswitch
        rw [hswitch, Bool.or_false] at hflushed
        rw [if_neg (by simp [hswitch])]
        convert hflushed using 3
        · rfl
        · exact hswitch

/-- What is to be read does not depend on the writing side. -/
theorem Ahead.afterFlush (h : Ahead v bytes r) (inner : ResponseStream RecordStream)
    (pending : List Byte) (written : Nat) (switchWrite : Bool) :
    Ahead { v with inner, pending, written, switchWrite } bytes r := by
  cases h with
  | plain hplain => exact .plain hplain
  | frame hin => exact .frame ⟨hin.1, hin.2, hin.3⟩
  | header hat => exact .header ⟨hat.1, hat.2, hat.3, hat.4, hat.5⟩

/-- A reader goes on behind the flush. -/
theorem Going.flushFrame (h : Going v bytes k) (hahead : Ahead v bytes r) (hm : v.budget k ≤ m) :
    (Going v.flushFrame.2 bytes k ∧ Ahead v.flushFrame.2 bytes r ∧ v.flushFrame.2.budget k ≤ m) ∧
      ∀ e, v.flushFrame.1 ≠ .failed e := by
  have hflush := v.flushFrame_cases
  generalize v.flushFrame = f at hflush ⊢
  have hcarries : ∀ t : RecordStream, t.carried.source = v.inner.inner.carried.source →
      Carries { v.inner with inner := t } bytes .eof k := fun t ht =>
    ResponseStream.Strips.replace h.carries fun hs => ht ▸ hs
  cases hflush with
  | stops r j sink hr hfine haccepted =>
    obtain ⟨hhealthy, hok⟩ := hfine h.healthy
    exact ⟨⟨⟨h.notFailed, hhealthy, hcarries _ rfl⟩, hahead.afterFlush _ _ _ _, hm⟩, hok⟩
  | done sink hfine haccepted =>
    exact ⟨⟨⟨h.notFailed, hfine h.healthy, hcarries _ rfl⟩, hahead.afterFlush _ _ _ _, hm⟩,
      nofun⟩

/-- **A Vision stream is a reader** of what its state stands for. -/
theorem reads : Reads pollRead Decodes where
  noRoom _ := rfl
  step {v out fin m n} h hn := by
    cases h with
    | failed m hfailed =>
      rw [pollRead, if_neg (by omega), if_pos hfailed]
      exact .error _ _ rfl rfl (.failed 0 hfailed)
    | going bytes out fin k m hgoing hahead hm =>
      rw [pollRead, if_neg (by omega), if_neg (by simp [hgoing.notFailed])]
      obtain ⟨⟨hgoing', hahead', hm'⟩, hok⟩ := hgoing.flushFrame hahead hm
      have hloop := pollLoop_step 64 hgoing' hahead' hm' nofun hn
      generalize v.flushFrame = f at hloop hok ⊢
      obtain ⟨r, w⟩ := f
      cases r with
      | pending | ready u => exact hloop
      | failed e => exact absurd rfl (hok e)

/-- A new stream is a reader of what `unpad` makes of the bytes behind the response. -/
theorem decodes_framed (inner : RecordStream) (id : Uuid) (draws : Nat → Nat)
    {bytes : List Byte}
    (hbytes : stripResponse inner.carried.source.bytes .eof = (bytes, .eof))
    (htail : inner.carried.source.tail = .eof) (hhealthy : inner.carried.sink.Healthy) :
    Decodes (framed inner id draws) (unpad id bytes).1 (unpad id bytes).2
      (inner.carried.source.size + 21) := by
  have hcarries : Carries (.new inner) bytes .eof inner.carried.source.size := by
    have hnew := ResponseStream.strips_new (I := fun s : RecordStream => s.carried.source.Holds)
      ⟨rfl, by rw [Source.finish, htail], le_rfl⟩
    rwa [hbytes] at hnew
  refine .going bytes _ _ _ _ ⟨rfl, hhealthy, hcarries⟩
    (.header ⟨rfl, rfl, rfl, rfl, need_pos _⟩) ?_
  simp only [budget, framed, false_eq_true, if_false]
  split <;> omega

end VisionStream

/-! ## The reader against the reference decoder -/

/-- **The reader implements the frame grammar.** For a stream that starts with the UUID,
however its bytes arrive and whatever the sizes of the buffers:

- what is delivered is a beginning of what the reference decoder gives;
- a run that ended has delivered all of it, and ended with an error exactly when the
  reference decoder does or nothing at all followed the UUID;
- a run with enough room ends;
- after an error every read fails;
- an answer without bytes comes only when everything has been delivered. -/
theorem reader_follows_grammar (inner : RecordStream) (id : Uuid) (draws : Nat → Nat)
    (x : List Byte)
    (hbytes : stripResponse inner.carried.source.bytes .eof = (id.toList ++ x, .eof))
    (htail : inner.carried.source.tail = .eof) (hhealthy : inner.carried.sink.Healthy)
    (sizes : List Nat) :
    (∃ rest, (decodeFrames x).1 =
        (readAll pollRead (.framed inner id draws) sizes).1 ++ rest) ∧
      (∀ fin, (readAll pollRead (.framed inner id draws) sizes).2 = some fin →
        (readAll pollRead (.framed inner id draws) sizes).1 =
            (decodeFrames x).1 ∧
          (fin = .error ↔ (decodeFrames x).2 = .error ∨ x = [])) ∧
      (inner.carried.source.size + 21 < sizes.countP (0 < ·) →
        (readAll pollRead (.framed inner id draws) sizes).2.isSome) ∧
      ((readAll pollRead (.framed inner id draws) sizes).2 = some .error →
        ∀ (more : List Nat) (n : Nat), 0 < n →
          ∃ e, (pollRead (Reader.after pollRead
            (.framed inner id draws) (sizes ++ more)) n).1 = .failed e) ∧
      ∀ (n : Nat) (c : List Byte), 0 < n →
        (pollRead (Reader.after pollRead
          (.framed inner id draws) sizes) n).1 = .ready c →
        c ≠ [] ∨ (readAll pollRead (.framed inner id draws) sizes).1 =
          (decodeFrames x).1 := by
  have hdecodes := decodes_framed inner id draws hbytes htail hhealthy
  -- the reader and the reference decoder agree on the payload, and on the end but for `x = []`
  have hout : (unpad id (id.toList ++ x)).1 = (decodeFrames x).1 := by
    rw [unpad_framed]
    by_cases hx : x = []
    · rw [if_pos hx, hx, decodeFrames_nil]
    · rw [if_neg hx]
  have hend : (unpad id (id.toList ++ x)).2 = .error ↔ (decodeFrames x).2 = .error ∨ x = [] := by
    rw [unpad_framed]
    by_cases hx : x = []
    · rw [if_pos hx]
      exact iff_of_true rfl (.inr hx)
    · rw [if_neg hx]
      exact ⟨.inl, fun h => h.resolve_right hx⟩
  rw [hout] at hdecodes
  obtain ⟨rest, k, hrest, -, -, hsome⟩ := VisionStream.reads.polls.run hdecodes sizes
  refine ⟨⟨rest, hrest⟩, fun fin hfin => ?_, fun hm => ?_, fun herr more n hn => ?_,
    fun n c hn hc => VisionStream.reads.polls.progress hdecodes sizes hn hc⟩
  · obtain ⟨rfl, -, rfl⟩ := hsome fin hfin
    exact ⟨by rw [hrest, append_nil], hend⟩
  · rw [(VisionStream.reads.polls.readAll_ends hdecodes hm).1]
    rfl
  · exact VisionStream.reads.polls.fails_after hdecodes herr more hn

/-- A stream whose bytes come in the given parts, a pause after each. -/
def RecordStream.parts (chunks : List (List Byte)) : RecordStream where
  carried :=
    { source := ⟨chunks.flatMap fun c => Event.ofList c ++ [.pending], .eof⟩
      sink := ⟨[], [], false⟩ }
  readDirect := false
  writeDirect := false

/-- Two frames in five parts, the second one the last, and a byte behind it. -/
theorem reader_follows_grammar_twoFrames :
    (readAll pollRead
      (.framed (.parts [[0, 1], 9 :: List.replicate 16 7, [0, 0, 2, 0], [1, 104, 105],
        [0, 1, 0, 1, 0, 0, 33, 44]]) (Vector.replicate 16 7) fun _ => 0)
      (List.replicate 80 3)).1 = [104, 105, 33, 44] := by
  obtain ⟨-, hend, hsome, -⟩ := reader_follows_grammar
    (.parts [[0, 1], 9 :: List.replicate 16 7, [0, 0, 2, 0], [1, 104, 105],
      [0, 1, 0, 1, 0, 0, 33, 44]]) (Vector.replicate 16 7) (fun _ => 0)
    [0, 0, 2, 0, 1, 104, 105, 0, 1, 0, 1, 0, 0, 33, 44] (by decide) rfl nofun
    (List.replicate 80 3)
  obtain ⟨fin, hfin⟩ := Option.isSome_iff_exists.mp (hsome (by decide))
  rw [(hend fin hfin).1]
  simp [decodeFrames_header, inFrame, inPadding, behind, prepend, fromBe16]

/-- A stream that ends right behind the UUID is empty for the reference decoder and
truncated for the reader, which collects the UUID and the first header together. -/
theorem uuid_alone_is_truncated :
    stripResponse (RecordStream.parts [0 :: 0 :: List.replicate 16 7]).carried.source.bytes .eof =
        ((Vector.replicate 16 7 : Uuid).toList ++ [], .eof) ∧
      decodeFrames [] = ([], .eof) ∧
      readAll pollRead
        (.framed (.parts [0 :: 0 :: List.replicate 16 7]) (Vector.replicate 16 7) fun _ => 0)
        [64, 64, 64] = ([], some .error) := by
  refine ⟨by decide, decodeFrames_nil, by decide⟩

/-! ## Streams without framing -/

/-- The reader of `inner` delivers exactly `d`, then the end: whatever the sizes of the
buffers it delivers a beginning of `d`, has delivered all of it without an error when it
ends, and does end when there is enough room. -/
def PassesThrough (inner : RecordStream) (id : Uuid) (draws : Nat → Nat) (d : List Byte) : Prop :=
  ∀ sizes : List Nat,
    (Reader.readAll VisionStream.pollRead (.framed inner id draws) sizes).1 <+: d ∧
      (∀ fin, (Reader.readAll VisionStream.pollRead (.framed inner id draws) sizes).2 = some fin →
        (Reader.readAll VisionStream.pollRead (.framed inner id draws) sizes).1 = d ∧
          fin = .eof) ∧
      (inner.carried.source.size + 21 < sizes.countP (0 < ·) →
        (Reader.readAll VisionStream.pollRead (.framed inner id draws) sizes).2.isSome)

/-- A stream that does not start with the UUID is payload, unless it is too short for the
header the reader collects before it looks. -/
theorem unpad_unframed {id : Uuid} {d : List Byte} (hid : ¬ id.toList <+: d) :
    unpad id d = if d = [] ∨ 21 ≤ d.length then (d, .eof) else ([], .error) := by
  rw [unpad]
  by_cases hnil : d = []
  · rw [if_pos hnil, if_pos (.inl hnil), hnil]
  rw [if_neg hnil]
  by_cases hshort : d.length < 21
  · rw [if_pos hshort, if_neg (by rintro (h | h) <;> [exact hnil h; omega])]
  · have htake : d.take 16 ≠ id.toList := by
      intro heq
      exact hid ⟨d.drop 16, by rw [← heq, take_append_drop]⟩
    rw [if_neg hshort, if_pos htake, if_pos (.inr (by omega))]

/-- **An unframed downlink passes unchanged** exactly when it is empty or fills the header
of 21 bytes. -/
theorem unframed_passes_iff (inner : RecordStream) (id : Uuid) (draws : Nat → Nat)
    {d : List Byte} (hid : ¬ id.toList <+: d)
    (hbytes : stripResponse inner.carried.source.bytes .eof = (d, .eof))
    (htail : inner.carried.source.tail = .eof) (hhealthy : inner.carried.sink.Healthy) :
    PassesThrough inner id draws d ↔ d = [] ∨ 21 ≤ d.length := by
  have hdecodes := decodes_framed inner id draws hbytes htail hhealthy
  rw [unpad_unframed hid] at hdecodes
  constructor
  · -- a shorter stream ends with an error, once the reader has room enough to see the end
    intro hpass
    by_contra hshort
    rw [if_neg hshort] at hdecodes
    have hroom : inner.carried.source.size + 21 <
        (List.replicate (inner.carried.source.size + 22) 1).countP (0 < ·) := by
      simp [countP_replicate]
    have hends := (VisionStream.reads.polls.readAll_ends hdecodes hroom).1
    obtain ⟨-, hfin, -⟩ := hpass (List.replicate (inner.carried.source.size + 22) 1)
    have heof := (hfin .error (by rw [hends])).2
    cases heof
  · intro hlong sizes
    rw [if_pos hlong] at hdecodes
    obtain ⟨rest, k, hrest, -, -, hsome⟩ := VisionStream.reads.polls.run hdecodes sizes
    refine ⟨⟨rest, hrest.symm⟩, fun fin hfin => ?_, fun hm => ?_⟩
    · obtain ⟨rfl, -, rfl⟩ := hsome fin hfin
      rw [append_nil] at hrest
      exact ⟨hrest.symm, rfl⟩
    · rw [(VisionStream.reads.polls.readAll_ends hdecodes hm).1]
      rfl

/-- 22 bytes in three parts, read seven at a time. -/
theorem unframed_passes_threeParts :
    (readAll pollRead
      (.framed (.parts [[0], 0 :: List.replicate 18 1, [2, 3, 4, 5]])
        (Vector.replicate 16 7) fun _ => 0) (List.replicate 60 7)).1 =
      List.replicate 18 1 ++ [2, 3, 4, 5] := by
  obtain ⟨-, hend, hsome⟩ := (unframed_passes_iff
    (.parts [[0], 0 :: List.replicate 18 1, [2, 3, 4, 5]]) (Vector.replicate 16 7) (fun _ => 0)
    (d := List.replicate 18 1 ++ [2, 3, 4, 5]) (by decide) (by decide) rfl nofun).mpr
    (.inr (by decide)) (List.replicate 60 7)
  obtain ⟨fin, hfin⟩ := Option.isSome_iff_exists.mp (hsome (by decide))
  exact (hend fin hfin).1

/-- Two bytes and the end: the reader keeps the bytes back and reports a truncated stream. -/
theorem short_downlink_is_lost :
    ¬ (Vector.replicate 16 7 : Uuid).toList <+: [104, 105] ∧
      stripResponse (RecordStream.parts [[0, 0, 104, 105]]).carried.source.bytes .eof =
        ([104, 105], .eof) ∧
      readAll pollRead
        (.framed (.parts [[0, 0, 104, 105]]) (Vector.replicate 16 7) fun _ => 0)
        [64, 64, 64] = ([], some .error) ∧
      ¬ PassesThrough (.parts [[0, 0, 104, 105]]) (Vector.replicate 16 7) (fun _ => 0)
        [104, 105] := by
  have hrun : readAll pollRead
      (.framed (.parts [[0, 0, 104, 105]]) (Vector.replicate 16 7) fun _ => 0)
      [64, 64, 64] = ([], some .error) := by decide
  refine ⟨by decide, by decide, hrun, fun hpass => ?_⟩
  obtain ⟨-, hfin, -⟩ := hpass [64, 64, 64]
  have heof := (hfin .error (by rw [hrun])).2
  cases heof

end ClashMeta.Vision
