import Mathlib.Data.List.GetD
import ClashMeta.Protocol.Vision.Sniff

/-!
# The ServerHello, however it arrives

`TlsHello::observe` (protocol/src/vision.rs:50-100) takes up the bytes of a stream in the pieces
they come in.
-/

namespace ClashMeta.Vision

open List

namespace TlsHello

/-! ## One turn -/

/-- What a turn does with the bytes it has taken: the answer, if the search is over, and the new
state. -/
def absorb (t : TlsHello) (taken : List Byte) : Option (Option Bool) × TlsHello :=
  let record := t.record ++ taken
  if record.length < 5 then (none, { t with record })
  else if record.getD 0 0 ≠ 22 ∨ record.getD 1 0 ≠ 3 then
    (some none, { t with record, done := true })
  else if record.length < recordLength record then (none, { t with record })
  else
    let handshake := t.handshake ++ record.drop 5
    match handshakeAnswer handshake with
    | some answer => (some answer, { record := [], handshake, done := true })
    | none => (none, { t with record := [], handshake })

/-- The state between two turns: the record is not complete, and its header has been checked. -/
structure Fine (t : TlsHello) : Prop where
  short : t.record.length < t.need
  header : 5 ≤ t.record.length → t.record.getD 0 0 = 22 ∧ t.record.getD 1 0 = 3

theorem fine_empty : Fine empty := ⟨by decide, fun h => absurd h (by decide)⟩

variable {taken bytes : List Byte}

theorem getD_append_left {record : List Byte} {i : Nat} (h : i < record.length) :
    (record ++ taken).getD i 0 = record.getD i 0 := getD_append _ _ _ _ h

theorem recordLength_append {record : List Byte} (h : 5 ≤ record.length) :
    recordLength (record ++ taken) = recordLength record := by
  unfold recordLength
  rw [getD_append_left (by omega), getD_append_left (by omega)]

variable {t : TlsHello}

theorem need_of_short (h : t.record.length < 5) : t.need = 5 := if_pos h

theorem need_of_header (h : 5 ≤ t.record.length) :
    t.need = recordLength t.record := if_neg (not_lt.mpr h)

theorem absorb_part (ht : t.Fine) (hlt : t.record.length + taken.length < t.need) :
    t.absorb taken = (none, { t with record := t.record ++ taken }) ∧
      ({ t with record := t.record ++ taken } : TlsHello).Fine ∧
      ({ t with record := t.record ++ taken } : TlsHello).need = t.need := by
  by_cases hfive : t.record.length < 5
  · rw [need_of_short hfive] at hlt ⊢
    have hshort : (t.record ++ taken).length < 5 := by rw [length_append]; exact hlt
    refine ⟨if_pos hshort, ⟨?_, fun h => absurd hshort (not_lt.mpr h)⟩, need_of_short hshort⟩
    rw [need_of_short hshort]
    exact hshort
  · have hlen := not_lt.mp hfive
    have hgrown : 5 ≤ (t.record ++ taken).length := by rw [length_append]; omega
    have hneed : ({ t with record := t.record ++ taken } : TlsHello).need = t.need := by
      rw [need_of_header hgrown, need_of_header hlen, recordLength_append hlen]
    have hheader := ht.header hlen
    have hkept : (t.record ++ taken).getD 0 0 = 22 ∧ (t.record ++ taken).getD 1 0 = 3 := by
      rw [getD_append_left (by omega), getD_append_left (by omega)]
      exact hheader
    rw [need_of_header hlen] at hlt
    refine ⟨?_, ⟨?_, fun _ => hkept⟩, hneed⟩
    · unfold absorb
      rw [if_neg (not_lt.mpr hgrown),
        if_neg (fun h => h.elim (fun h => h hkept.1) fun h => h hkept.2), recordLength_append hlen,
        if_pos (by rw [length_append]; exact hlt)]
    · rw [hneed, length_append, need_of_header hlen]
      exact hlt

theorem absorb_append (t : TlsHello) (a b : List Byte) :
    ({ t with record := t.record ++ a } : TlsHello).absorb b = t.absorb (a ++ b) := by
  unfold absorb
  rw [append_assoc]

theorem fine_absorb {t' : TlsHello} (h : t.absorb taken = (none, t')) :
    t'.Fine ∧ t'.done = t.done := by
  unfold absorb at h
  dsimp only at h
  split at h
  · rename_i hshort
    cases h
    refine ⟨⟨?_, fun h => absurd hshort (not_lt.mpr h)⟩, rfl⟩
    rw [need_of_short hshort]
    exact hshort
  split at h
  · cases h
  rename_i hlong hheader
  split at h
  · rename_i hpart
    cases h
    refine ⟨⟨?_, fun _ => ?_⟩, rfl⟩
    · rw [need_of_header (not_lt.mp hlong)]
      exact hpart
    · exact ⟨not_not.mp fun h => hheader (.inl h), not_not.mp fun h => hheader (.inr h)⟩
  · split at h
    · cases h
    · cases h
      exact ⟨⟨Nat.succ_pos 4, fun h => absurd h (Nat.not_succ_le_zero 4)⟩, rfl⟩

theorem done_absorb {t' : TlsHello} {answer : Option Bool}
    (h : t.absorb taken = (some answer, t')) :
    t'.done = true := by
  unfold absorb at h
  dsimp only at h
  split at h
  · cases h
  split at h
  · cases h
    rfl
  split at h
  · cases h
  · split at h
    · cases h
      rfl
    · cases h

/-! ## Pieces -/

theorem observeLoop_done {fuel : Nat} (h : t.done) (bytes : List Byte) :
    observeLoop fuel t bytes = (none, t) := by
  cases fuel with
  | zero => rfl
  | succ fuel => rw [observeLoop, if_pos (.inr h)]

theorem observeLoop_nil (fuel : Nat) (t : TlsHello) : observeLoop fuel t [] = (none, t) := by
  cases fuel with
  | zero => rfl
  | succ fuel => rw [observeLoop, if_pos (.inl rfl)]

/-- A turn of the loop collects what the record still needs, as far as it goes. -/
theorem observeLoop_succ {fuel : Nat} (hne : bytes ≠ []) (hdone : t.done = false) :
    observeLoop (fuel + 1) t bytes =
      if 18437 < t.need then (none, { t with done := true })
      else
        match t.absorb (bytes.take (t.need - t.record.length)) with
        | (some answer, t') => (answer, t')
        | (none, t') => observeLoop fuel t' (bytes.drop (t.need - t.record.length)) := by
  have hgo : ¬ (bytes = [] ∨ t.done = true) := by
    rintro (h | h)
    · exact hne h
    · rw [hdone] at h
      cases h
  rw [observeLoop, if_neg hgo]
  dsimp only
  rw [min_comm, ← take_eq_take_min, ← drop_eq_drop_min]
  split
  · rfl
  unfold absorb
  dsimp only
  split
  · rfl
  split
  · rfl
  split
  · rfl
  generalize handshakeAnswer _ = answer
  cases answer <;> rfl

/-- A state of the search: over, or between two turns. -/
def Ready (t : TlsHello) : Prop := t.done = false → t.Fine

/-- A turn ends the search, or leaves a state to go on from. -/
theorem absorb_cases (t : TlsHello) (taken : List Byte) :
    (∃ answer t', t.absorb taken = (some answer, t') ∧ t'.done = true ∧ t'.Ready) ∨
      ∃ t', t.absorb taken = (none, t') ∧ t'.Ready := by
  cases habsorb : t.absorb taken with
  | mk answer t' =>
    cases answer with
    | none => exact .inr ⟨t', rfl, fun _ => (fine_absorb habsorb).1⟩
    | some answer =>
      have hdone := done_absorb habsorb
      refine .inl ⟨answer, t', rfl, hdone, fun h => ?_⟩
      rw [hdone] at h
      cases h

/-- The loop ends by itself: as many turns as there are bytes are enough. -/
theorem observeLoop_fuel {n m : Nat} (ht : t.Ready) (hn : bytes.length ≤ n)
    (hm : bytes.length ≤ m) :
    observeLoop n t bytes = observeLoop m t bytes := by
  induction n generalizing m t bytes with
  | zero =>
    obtain rfl := length_eq_zero_iff.mp (Nat.le_zero.mp hn)
    rw [observeLoop_nil, observeLoop_nil]
  | succ n ih =>
    by_cases hne : bytes = []
    · rw [hne, observeLoop_nil, observeLoop_nil]
    have hpos := length_pos_iff.mpr hne
    obtain ⟨m, rfl⟩ : ∃ m', m = m' + 1 := ⟨m - 1, by omega⟩
    cases hdone : t.done with
    | true => rw [observeLoop_done hdone, observeLoop_done hdone]
    | false =>
      have hshort := (ht hdone).short
      rw [observeLoop_succ hne hdone, observeLoop_succ hne hdone]
      split
      · rfl
      rcases t.absorb_cases (bytes.take (t.need - t.record.length)) with
        ⟨answer, t', habsorb, -⟩ | ⟨t', habsorb, hready⟩ <;> rw [habsorb]
      exact ih hready (by rw [length_drop]; omega) (by rw [length_drop]; omega)

theorem observe_eq (ht : t.Fine) (hdone : t.done = false) (hne : bytes ≠ []) : observe t bytes =
      if 18437 < t.need then (none, { t with done := true })
      else
        match t.absorb (bytes.take (t.need - t.record.length)) with
        | (some answer, t') => (answer, t')
        | (none, t') => observe t' (bytes.drop (t.need - t.record.length)) := by
  have hpos := length_pos_iff.mpr hne
  have hshort := ht.short
  unfold observe
  obtain ⟨n, hn⟩ : ∃ n, bytes.length = n + 1 := ⟨bytes.length - 1, by omega⟩
  rw [hn, observeLoop_succ hne hdone]
  split
  · rfl
  rcases t.absorb_cases (bytes.take (t.need - t.record.length)) with
    ⟨answer, t', habsorb, -⟩ | ⟨t', habsorb, hready⟩ <;> rw [habsorb]
  exact observeLoop_fuel hready (by rw [length_drop]; omega) le_rfl

theorem observe_done (h : t.done) (bytes : List Byte) :
    t.observe bytes = (none, t) := observeLoop_done h bytes

theorem observe_nil (t : TlsHello) : t.observe [] = (none, t) := rfl

/-- The rest of a stream, observed after its front. -/
def andThen (r : Option Bool × TlsHello) (bytes : List Byte) : Option Bool × TlsHello :=
  (r.1.or (r.2.observe bytes).1, (r.2.observe bytes).2)

theorem andThen_none (t : TlsHello) (bytes : List Byte) :
    andThen (none, t) bytes = t.observe bytes := rfl

theorem andThen_done (h : t.done) (answer : Option Bool) (bytes : List Byte) :
    andThen (answer, t) bytes = (answer, t) := by
  unfold andThen
  rw [observe_done h, Option.or_none]

/-- **Two pieces are as good as one**, by induction on the first: a turn takes a part of it, or
all of it and the front of the second. -/
theorem observe_append (ht : t.Ready) (a b : List Byte) :
    t.observe (a ++ b) = andThen (t.observe a) b := by
  induction hlen : a.length using Nat.strong_induction_on generalizing t a with
  | _ n ih =>
    cases hdone : t.done with
    | true => rw [observe_done hdone, observe_done hdone, andThen_done hdone]
    | false =>
      have hfine := ht hdone
      have hshort := hfine.short
      by_cases hne : a = []
      · rw [hne, nil_append, observe_nil, andThen_none]
      have hboth : a ++ b ≠ [] := fun h => hne (append_eq_nil_iff.mp h).1
      rw [observe_eq hfine hdone hboth, observe_eq hfine hdone hne]
      by_cases hlarge : 18437 < t.need
      · rw [if_pos hlarge, if_pos hlarge, andThen_done rfl]
      rw [if_neg hlarge, if_neg hlarge]
      rcases lt_or_ge a.length (t.need - t.record.length) with hpart | hwhole
      · -- the first piece is only collected
        have hcollect : t.record.length + a.length < t.need := by omega
        obtain ⟨habsorb, hfine₁, hneed⟩ := absorb_part hfine hcollect
        rw [take_append, drop_append, take_of_length_le (le_of_lt hpart),
          drop_eq_nil_of_le (le_of_lt hpart), nil_append, habsorb]
        dsimp only
        rw [observe_nil, andThen_none]
        by_cases hb : b = []
        · rw [hb, take_nil, append_nil, habsorb, drop_nil]
        · rw [observe_eq hfine₁ hdone hb, hneed, if_neg hlarge, absorb_append, length_append,
            Nat.sub_add_eq]
      · rw [take_append_of_le_length hwhole, drop_append_of_le_length hwhole]
        rcases t.absorb_cases (a.take (t.need - t.record.length)) with
          ⟨answer, t', habsorb, hover, -⟩ | ⟨t', habsorb, hready⟩ <;> rw [habsorb]
        · dsimp only
          rw [andThen_done hover]
        · exact ih _ (by rw [length_drop]; omega) hready _ rfl

theorem ready_observe (ht : t.Ready) (bytes : List Byte) : (t.observe bytes).2.Ready := by
  induction hlen : bytes.length using Nat.strong_induction_on generalizing t bytes with
  | _ n ih =>
    cases hdone : t.done with
    | true =>
      rw [observe_done hdone]
      exact ht
    | false =>
      by_cases hne : bytes = []
      · rw [hne]
        exact ht
      have hpos := length_pos_iff.mpr hne
      have hshort := (ht hdone).short
      rw [observe_eq (ht hdone) hdone hne]
      split
      · exact fun h => (by cases h)
      rcases t.absorb_cases (bytes.take (t.need - t.record.length)) with
        ⟨answer, t', habsorb, -, hready⟩ | ⟨t', habsorb, hready⟩ <;> rw [habsorb]
      · exact hready
      · exact ih _ (by rw [length_drop]; omega) hready _ rfl

/-- The answers to the pieces of a stream, one after another. -/
def observeAll : TlsHello → List (List Byte) → List (Option Bool)
  | _, [] => []
  | t, chunk :: chunks => (t.observe chunk).1 :: observeAll (t.observe chunk).2 chunks

/-- **The first answer does not depend on the pieces**, by induction on them. -/
theorem findSome?_observeAll (ht : t.Ready) (chunks : List (List Byte)) :
    (t.observeAll chunks).findSome? id = (t.observe chunks.flatten).1 := by
  induction chunks generalizing t with
  | nil => rfl
  | cons chunk chunks ih =>
    rw [observeAll, findSome?_cons, ih (ready_observe ht chunk), flatten_cons, observe_append ht]
    unfold andThen
    cases (t.observe chunk).1 <;> rfl

end TlsHello

end ClashMeta.Vision
