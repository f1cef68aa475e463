import ClashMeta.Lib.PollIo
import ClashMeta.Protocol.WebSocket.Frame

/-!
# Frames against reads

How many inner reads a stream of server frames needs when every frame that hands
nothing to the reader costs one read of its own. `Timely` says that the reads
there are suffice; the lemmas say how it changes when a frame is taken off the
buffer and when a read is made.
-/

namespace ClashMeta.WebSocket

open List

/-! ## Frames and reads -/

/-- A frame that hands nothing to the reader. -/
def ServerFrame.isSkip (f : ServerFrame) : Bool := !(f.opcode.isData && f.payload ≠ [])

/-- The payloads of the data frames before the first Close. -/
def expected (frames : List ServerFrame) : List Byte :=
  ((frames.takeWhile (·.opcode ≠ .close)).filter (·.opcode.isData)).flatMap (·.payload)

/-- How many more reads it takes until `k` more bytes are there. -/
def arrival : List (Event Byte) → Nat → Nat
  | [], _ => 0
  | e :: es, k => if k = 0 then 0 else arrival es (k - e.bytes.length) + 1

/-- How many reads there are up to the last one that carries bytes. -/
def carrying : List (Event Byte) → Nat
  | [] => 0
  | e :: es => if (e :: es).any Event.carries then carrying es + 1 else 0

/-- How many frames of a list hand nothing to the reader. -/
def skips (frames : List ServerFrame) : Nat := frames.countP ServerFrame.isSkip

/-- The bytes of a list of frames. -/
def wireLength (frames : List ServerFrame) : Nat := (frames.flatMap ServerFrame.encode).length

/-- `g` is a data frame with bytes to hand out, before any Close, and `wait` are
the frames before it. -/
def DataAfter (frames wait : List ServerFrame) (g : ServerFrame) : Prop :=
  (∃ post, frames = wait ++ g :: post) ∧ (∀ f ∈ wait, f.opcode ≠ .close) ∧ g.isSkip = false

/-- **The exact condition**, with `received` bytes in the buffer: from any frame
up to a data frame `g` that has bytes to hand out, the reads that complete it and
one read for each frame in between that hands nothing out are made before the last
read that carries bytes is over. -/
def Timely (frames : List ServerFrame) (received : Nat) (events : List (Event Byte)) : Prop :=
  ∀ pre wait g, DataAfter frames (pre ++ wait) g →
    arrival events (wireLength (pre ++ (wait ++ [g]).take 1) - received) + skips wait ≤
      carrying events

/-! ## Small lemmas -/

variable {f : ServerFrame}

theorem expected_close (h : f.opcode = .close) (fs : List ServerFrame) :
    expected (f :: fs) = [] := by
  simp [expected, h]

theorem expected_skip (hclose : f.opcode ≠ .close) (hskip : f.isSkip)
    (fs : List ServerFrame) :
    expected (f :: fs) = expected fs := by
  unfold ServerFrame.isSkip at hskip
  cases hdata : f.opcode.isData with
  | false => simp [expected, hclose, hdata]
  | true =>
    have hnil : f.payload = [] := by simpa [hdata] using hskip
    simp [expected, hclose, hdata, hnil]

theorem isSkip_eq_false : f.isSkip = false ↔ f.opcode.isData = true ∧ f.payload ≠ [] := by
  simp [ServerFrame.isSkip]

theorem not_close_of_data (h : f.opcode.isData) : f.opcode ≠ .close := by
  intro hclose
  rw [hclose] at h
  cases h

theorem expected_data (h : f.isSkip = false) (fs : List ServerFrame) :
    expected (f :: fs) = f.payload ++ expected fs := by
  obtain ⟨hdata, -⟩ := isSkip_eq_false.mp h
  simp [expected, not_close_of_data hdata, hdata]

variable {e : Event Byte} {es : List (Event Byte)}

theorem carrying_cons (h : (e :: es).any Event.carries) : carrying (e :: es) = carrying es + 1 := by
  rw [carrying, if_pos h]

theorem carrying_eq_zero (h : es.any Event.carries = false) : carrying es = 0 := by
  cases es with
  | nil => rfl
  | cons e es => rw [carrying, if_neg (by simp only [h, Bool.false_eq_true, not_false_eq_true])]

@[simp] theorem arrival_zero (es : List (Event Byte)) : arrival es 0 = 0 := by
  cases es <;> rfl

theorem arrival_cons {k : Nat} (h : 0 < k) :
    arrival (e :: es) k = arrival es (k - e.bytes.length) + 1 := by
  rw [arrival, if_neg (by omega)]

@[simp] theorem skips_nil : skips [] = 0 := rfl

theorem skips_cons (f : ServerFrame) (fs : List ServerFrame) :
    skips (f :: fs) = skips fs + if f.isSkip then 1 else 0 := by
  simp [skips, countP_cons]

theorem skips_append (xs ys : List ServerFrame) : skips (xs ++ ys) = skips xs + skips ys := by
  simp [skips]

theorem wireLength_cons (f : ServerFrame) (fs : List ServerFrame) :
    wireLength (f :: fs) = f.encode.length + wireLength fs := by
  simp [wireLength]

variable {fs : List ServerFrame}

theorem dataAfter_cons {wait : List ServerFrame} {g : ServerFrame} :
    DataAfter (f :: fs) wait g ↔
      (wait = [] ∧ g = f ∧ f.isSkip = false) ∨
        ∃ wait', wait = f :: wait' ∧ f.opcode ≠ .close ∧ DataAfter fs wait' g := by
  constructor
  · rintro ⟨⟨post, heq⟩, hclose, hskip⟩
    cases wait with
    | nil =>
      cases heq
      exact .inl ⟨rfl, rfl, hskip⟩
    | cons w wait =>
      rw [cons_append, List.cons.injEq] at heq
      obtain ⟨rfl, heq⟩ := heq
      exact .inr ⟨wait, rfl, hclose f mem_cons_self, ⟨post, heq⟩,
        fun x hx => hclose x (mem_cons_of_mem _ hx), hskip⟩
  · rintro (⟨rfl, rfl, hskip⟩ | ⟨wait', rfl, hf, ⟨post, heq⟩, hclose, hskip⟩)
    · exact ⟨⟨fs, rfl⟩, nofun, hskip⟩
    · refine ⟨⟨post, by rw [heq, cons_append]⟩, ?_, hskip⟩
      intro x hx
      rcases mem_cons.mp hx with rfl | hx
      · exact hf
      · exact hclose x hx

theorem not_dataAfter_nil {wait : List ServerFrame} {g : ServerFrame} : ¬ DataAfter [] wait g := by
  rintro ⟨⟨post, heq⟩, -⟩
  simp at heq

/-- Something is expected exactly when a data frame with bytes comes before any
Close. -/
theorem expected_eq_nil_iff (fs : List ServerFrame) :
    expected fs = [] ↔ ∀ wait g, ¬ DataAfter fs wait g := by
  induction fs with
  | nil => exact ⟨fun _ _ _ => not_dataAfter_nil, fun _ => rfl⟩
  | cons f fs ih =>
    by_cases hclose : f.opcode = .close
    · refine ⟨fun _ wait g hg => ?_, fun _ => expected_close hclose fs⟩
      rcases dataAfter_cons.mp hg with ⟨-, -, hskip⟩ | ⟨-, -, hne, -⟩
      · exact not_close_of_data (isSkip_eq_false.mp hskip).1 hclose
      · exact hne hclose
    · cases hskip : f.isSkip with
      | true =>
        rw [expected_skip hclose hskip, ih]
        constructor
        · intro h wait g hg
          rcases dataAfter_cons.mp hg with ⟨-, -, hno⟩ | ⟨wait', -, -, hg⟩
          · rw [hskip] at hno
            cases hno
          · exact h wait' g hg
        · intro h wait g hg
          exact h (f :: wait) g (dataAfter_cons.mpr (.inr ⟨wait, rfl, hclose, hg⟩))
      | false =>
        rw [expected_data hskip]
        constructor
        · intro h
          exact absurd (append_eq_nil_iff.mp h).1 (isSkip_eq_false.mp hskip).2
        · intro h
          exact absurd (dataAfter_cons.mpr (.inl ⟨rfl, rfl, hskip⟩)) (h [] f)

/-! ## How the condition moves with the loop -/

theorem timely_of_expected_nil (h : expected fs = []) (r : Nat) (es : List (Event Byte)) :
    Timely fs r es :=
  fun pre wait g hg => absurd hg ((expected_eq_nil_iff fs).mp h (pre ++ wait) g)

variable {r : Nat}

theorem timely_cons (hf : f.encode.length ≤ r) (hclose : f.opcode ≠ .close) :
    Timely (f :: fs) r es ↔
      (∀ wait g, DataAfter fs wait g → (if f.isSkip then 1 else 0) + skips wait ≤ carrying es) ∧
        Timely fs (r - f.encode.length) es := by
  have hfirst : wireLength [f] - r = 0 := by
    rw [wireLength_cons]
    simp only [wireLength, flatMap_nil, length_nil]
    omega
  have hshift : ∀ x, wireLength (f :: x) - r = wireLength x - (r - f.encode.length) := by
    intro x
    rw [wireLength_cons]
    omega
  constructor
  · intro h
    refine ⟨fun wait g hg => ?_, fun pre wait g hg => ?_⟩
    · have hle := h [] (f :: wait) g (dataAfter_cons.mpr (.inr ⟨wait, rfl, hclose, hg⟩))
      rw [skips_cons] at hle
      omega
    · have hle := h (f :: pre) wait g (dataAfter_cons.mpr (.inr ⟨_, rfl, hclose, hg⟩))
      rwa [cons_append, hshift] at hle
  · rintro ⟨hskips, hrest⟩ pre wait g hg
    -- `f` is the data frame itself, is waited for, or was there before
    cases pre with
    | nil =>
      rcases dataAfter_cons.mp hg with ⟨hwait, rfl, -⟩ | ⟨wait', hwait, -, hg'⟩
      · rw [nil_append] at hwait
        subst hwait
        simp only [nil_append, take_succ_cons, take_zero, hfirst, arrival_zero, skips_nil]
        omega
      · rw [nil_append] at hwait
        subst hwait
        have hle := hskips wait' g hg'
        rw [skips_cons]
        simp only [nil_append, cons_append, take_succ_cons, take_zero, hfirst, arrival_zero]
        omega
    | cons p pre =>
      rcases dataAfter_cons.mp hg with ⟨hwait, -⟩ | ⟨wait', hwait, -, hg⟩
      · cases hwait
      · rw [cons_append] at hwait
        obtain ⟨rfl, rfl⟩ := hwait
        rw [cons_append, hshift]
        exact hrest pre wait g hg

theorem timely_read (hmore : (e :: es).any Event.carries) :
    ((∀ wait g, DataAfter fs wait g → skips wait ≤ carrying es) ∧ Timely fs r (e :: es)) ↔
      Timely fs (r + e.bytes.length) es := by
  constructor
  · rintro ⟨hskips, h⟩ pre wait g hg
    have hall := hskips (pre ++ wait) g hg
    have hle := h pre wait g hg
    rw [skips_append] at hall
    rw [carrying_cons hmore] at hle
    generalize wireLength (pre ++ (wait ++ [g]).take 1) = x at hle ⊢
    by_cases hx : x - r = 0
    · rw [show x - (r + e.bytes.length) = 0 by omega, arrival_zero]
      omega
    · rw [arrival_cons (by omega), Nat.sub_sub] at hle
      omega
  · intro h
    refine ⟨fun wait g hg => ?_, fun pre wait g hg => ?_⟩
    · have hle := h [] wait g hg
      omega
    · have hle := h pre wait g hg
      rw [carrying_cons hmore]
      generalize wireLength (pre ++ (wait ++ [g]).take 1) = x at hle ⊢
      by_cases hx : x - r = 0
      · rw [hx, arrival_zero]
        omega
      · rw [arrival_cons (by omega), Nat.sub_sub]
        omega

/-- A data frame uses up none of the reads. -/
theorem timely_data (hf : f.encode.length ≤ r) (hskip : f.isSkip = false) :
    Timely (f :: fs) r es ↔ Timely fs (r - f.encode.length) es := by
  rw [timely_cons hf (not_close_of_data (isSkip_eq_false.mp hskip).1)]
  refine ⟨And.right, fun h => ⟨fun wait g hg => ?_, h⟩⟩
  have hle := h [] wait g hg
  rw [hskip]
  simp only [Bool.false_eq_true, if_false]
  omega

theorem timely_skip_read (hf : f.encode.length ≤ r) (hclose : f.opcode ≠ .close)
    (hskip : f.isSkip) (hmore : (e :: es).any Event.carries) :
    Timely (f :: fs) r (e :: es) ↔
      Timely fs (r - f.encode.length + e.bytes.length) es := by
  rw [timely_cons hf hclose, ← timely_read hmore, carrying_cons hmore, hskip]
  simp only [if_true]
  constructor
  · rintro ⟨hskips, h⟩
    refine ⟨fun wait g hg => ?_, h⟩
    have hle := hskips wait g hg
    omega
  · rintro ⟨hskips, h⟩
    refine ⟨fun wait g hg => ?_, h⟩
    have hle := hskips wait g hg
    omega

/-- A frame that hands nothing out, with no bytes to come: whatever is behind it
stays behind. -/
theorem timely_skip_end (hf : f.encode.length ≤ r) (hclose : f.opcode ≠ .close)
    (hskip : f.isSkip) (hnone : es.any Event.carries = false) :
    Timely (f :: fs) r es ↔ expected fs = [] := by
  rw [timely_cons hf hclose, carrying_eq_zero hnone, hskip]
  constructor
  · rintro ⟨hskips, -⟩
    refine (expected_eq_nil_iff fs).mpr fun wait g hg => ?_
    have hle := hskips wait g hg
    simp at hle
  · intro h
    refine ⟨fun wait g hg => ?_, timely_of_expected_nil h _ _⟩
    exact absurd hg ((expected_eq_nil_iff fs).mp h wait g)

/-- A partial frame waits for the next event. -/
theorem timely_wait (hf : r < f.encode.length) (hmore : (e :: es).any Event.carries) :
    Timely (f :: fs) r (e :: es) ↔ Timely (f :: fs) (r + e.bytes.length) es := by
  rw [← timely_read hmore]
  refine ⟨fun h => ⟨fun wait g hg => ?_, h⟩, And.right⟩
  -- the first frame of the stretch is `f`, which needs at least this read
  have hfirst : (wait ++ [g]).take 1 = [f] := by
    rcases dataAfter_cons.mp hg with ⟨rfl, rfl, -⟩ | ⟨wait', rfl, -⟩ <;> rfl
  have hle := h [] wait g hg
  rw [nil_append, hfirst, wireLength_cons, carrying_cons hmore, arrival_cons (by omega)] at hle
  omega

end ClashMeta.WebSocket
