import ClashMeta.Protocol.Vless.Response

/-!
# Stripping the response header

`ResponseStream` over a stream whose answers are noted beside it.
-/

namespace ClashMeta.Vless

open List

open ResponseStream

/-- A stream with the answers it has given to reads with room. -/
structure Heard where
  source : Source IoError Byte
  answers : List (Poll IoError (List Byte))

namespace Heard

/-- A poll of the source that is written down. -/
def poll (s : Heard) (n : Nat) : Poll IoError (List Byte) × Heard :=
  if n = 0 then (.ready [], s)
  else ((s.source.poll n).1, ⟨(s.source.poll n).2, s.answers ++ [(s.source.poll n).1]⟩)

/-- It has said that the input has ended. -/
def Ended (s : Heard) : Prop := .ready [] ∈ s.answers

/-- Its last answer is that there is nothing yet. -/
def Waits (s : Heard) : Prop := s.answers.getLast? = some .pending

/-- The stream still has `out`, then the end; after the end nothing comes any more. -/
structure Holds (s : Heard) (out : List Byte) (fin : Finish) (m : Nat) : Prop where
  source : s.source.Holds out fin m
  ended : s.Ended → s.source.size = 0 ∧ ¬ s.Waits

theorem reads : Reader.Reads poll Holds where
  noRoom _ := rfl
  step {s out fin m n} h hn := by
    have hstep := Source.reads.step h.source hn
    have hbefore : s.Ended → Reader.Step Source.Holds out fin 0 n (s.source.poll n) := fun he =>
      Source.reads.step ⟨h.source.bytes, h.source.finish, le_of_eq (h.ended he).1⟩ hn
    rw [poll, if_neg (by omega)]
    generalize s.source.poll n = r at hstep hbefore ⊢
    have hended : ∀ t : Source IoError Byte, Ended ⟨t, s.answers ++ [r.1]⟩ →
        s.Ended ∨ .ready [] = r.1 := fun t he => by
      simpa [Ended] using he
    -- behind the end a source neither waits nor brings anything
    cases hstep with
    | pending t k hk h' =>
      refine .pending _ k hk ⟨h', fun he => ?_⟩
      cases hbefore ((hended t he).resolve_right nofun) with
      | pending _ _ hk => exact absurd hk (Nat.not_lt_zero _)
    | data c rest t k hne hle hout hk h' =>
      refine .data c rest _ k hne hle hout hk ⟨h', fun he => ?_⟩
      rcases hended t he with he | hnil
      · cases hbefore he with
        | data _ _ _ _ _ _ _ hk => exact absurd (length_pos_of_ne_nil hne) (by omega)
        | eof => exact absurd rfl hne
      · cases hnil
        exact absurd rfl hne
    | eof t hout hfin h' =>
      exact .eof _ hout hfin ⟨h', fun _ => ⟨Nat.le_zero.mp h'.size, by simp [Waits]⟩⟩
    | error e t hout hfin h' =>
      exact .error e _ hout hfin ⟨h', fun _ => ⟨Nat.le_zero.mp h'.size, by simp [Waits]⟩⟩

end Heard

/-- The header of a response has been read with another version, or the input has ended. -/
def Seen (rs : ResponseStream Heard) : Prop :=
  (rs.header.length = 2 ∧ rs.header.getD 0 0 ≠ 0) ∨ rs.inner.Ended

/-- A response: the version 0, the length of the addons, the addons, and the payload. -/
structure Response (b payload : List Byte) : Prop where
  version : b[0]? = some 0
  rest : ∃ k : Byte, b[1]? = some k ∧ 2 + k.toNat ≤ b.length ∧ payload = b.drop (2 + k.toNat)

theorem stripResponse_of_response {b payload : List Byte} (h : Response b payload) :
    stripResponse b .eof = (payload, .eof) := by
  obtain ⟨hversion, k, hk, hlen, rfl⟩ := h
  match b, hversion, hk, hlen with
  | version :: addons :: rest, hversion, hk, hlen =>
    cases hversion
    cases hk
    simp only [length_cons] at hlen
    rw [stripResponse, if_neg (not_not.mpr rfl), stripAddons, if_neg (by omega), add_comm]
    rfl

theorem stripResponse_of_not_response {b : List Byte} (h : ∀ payload, ¬ Response b payload) :
    stripResponse b .eof = ([], .error) := by
  match b with
  | [] | [_] => rfl
  | version :: addons :: rest =>
    rw [stripResponse]
    split
    · rfl
    · rename_i hversion
      refine stripAddons_short (not_le.mp fun hle => ?_) _
      refine h (rest.drop addons.toNat) ⟨congrArg some (not_not.mp hversion), addons, rfl, ?_, ?_⟩
      · simp only [length_cons]
        omega
      · rw [add_comm]
        rfl

/-- A new stream over these events, then the end. -/
def responding (events : List (Event Byte)) : ResponseStream Heard := .new ⟨⟨events, .eof⟩, []⟩

/-- What reads of these sizes deliver, up to the end or an error. -/
def delivered (events : List (Event Byte)) (sizes : List Nat) : List Byte × Option Finish :=
  Reader.readAll (pollRead Heard.poll) (responding events) sizes

/-- The read behind them. -/
def nextRead (events : List (Event Byte)) (sizes : List Nat) (n : Nat) :
    Poll IoError (List Byte) × ResponseStream Heard :=
  (Reader.after (pollRead Heard.poll) (responding events) sizes).pollRead Heard.poll n

theorem strips_responding {events : List (Event Byte)} {out : List Byte} {fin : Finish}
    (h : stripResponse (events.flatMap Event.bytes) .eof = (out, fin)) :
    Strips Heard.Holds (responding events) out fin (Source.size (ε := IoError) ⟨events, .eof⟩) := by
  have hnew : Strips Heard.Holds (responding events) _ _ _ :=
    strips_new ⟨⟨rfl, rfl, le_rfl⟩, nofun⟩
  rwa [show Source.bytes _ = events.flatMap Event.bytes from rfl, h] at hnew

theorem versioned_after (events : List (Event Byte)) (sizes : List Nat) :
    Versioned (Reader.after (pollRead Heard.poll) (responding events) sizes) := by
  refine List.foldlRecOn sizes _ (motive := Versioned) nofun fun rs h n _ => ?_
  exact (pollRead_spec (P := fun _ => True) (Q := fun _ => True) (fun _ _ _ => trivial)
    (fun _ _ _ => trivial) trivial n).2.1 h

/-- A read that waits has seen neither another version nor the end. -/
theorem not_seen_of_pending (events : List (Event Byte)) (sizes : List Nat) {n k : Nat}
    {rest : List Byte} {fin : Finish} (hp : (nextRead events sizes n).1 = .pending)
    (h : Strips Heard.Holds (nextRead events sizes n).2 rest fin k) :
    ¬ Seen (nextRead events sizes n).2 := by
  have hwait : ∀ s n, (Heard.poll s n).1 = .pending → (Heard.poll s n).2.Waits := by
    intro s n hp
    unfold Heard.poll at hp ⊢
    split at hp
    · cases hp
    · rw [if_neg ‹_›, Heard.Waits, getLast?_concat]
      exact congrArg some hp
  obtain ⟨-, hnext, hwaits⟩ := pollRead_spec (P := fun _ => True) (fun _ _ _ => trivial) hwait
    (trivial : (fun _ => True) (Reader.after _ (responding events) sizes).inner) n
  obtain ⟨hfailed, hwaits⟩ := hwaits hp
  rintro (⟨hlen, hbad⟩ | hended)
  · exact hbad (hnext (versioned_after events sizes) hlen hfailed)
  · cases h with
    | failed _ hf => cases hfailed.symm.trans hf
    | header _ _ _ _ _ _ h | addons _ _ _ _ _ _ h | payload _ _ _ _ _ _ h =>
      exact (h.ended hended).2 hwaits

/-- **The response header is stripped exactly**, however the bytes arrive and whatever the sizes
of the buffers. Of a response its payload is delivered, all of it after enough reads, and then the
end; no read fails. Of anything else nothing is delivered, and a read by whose end another version
or the end of the input was seen fails, as does every later one. -/
theorem response_stripped (events : List (Event Byte)) (sizes : List Nat) :
    (∀ payload, Response (events.flatMap Event.bytes) payload →
      (delivered events sizes).1 <+: payload ∧
      (Source.size (ε := IoError) ⟨events, .eof⟩ < sizes.countP (0 < ·) →
        delivered events sizes = (payload, some .eof)) ∧
      ∀ n, 0 < n → (∀ e, (nextRead events sizes n).1 ≠ .failed e) ∧
        ((nextRead events sizes n).1 = .ready [] → (delivered events sizes).1 = payload)) ∧
    ((∀ payload, ¬ Response (events.flatMap Event.bytes) payload) →
      (Source.size (ε := IoError) ⟨events, .eof⟩ < sizes.countP (0 < ·) →
        delivered events sizes = ([], some .error)) ∧
      ∀ n, 0 < n → (∀ c, (nextRead events sizes n).1 ≠ .ready c) ∧
        (Seen (nextRead events sizes n).2 → (∃ e, (nextRead events sizes n).1 = .failed e) ∧
          ∀ more n', 0 < n' → ∃ e, (nextRead events (sizes ++ n :: more) n').1 = .failed e)) := by
  have hreads := (ResponseStream.reads Heard.reads).polls
  refine ⟨fun payload hresponse => ?_, fun hnone => ?_⟩
  · have hstrips := strips_responding (stripResponse_of_response hresponse)
    obtain ⟨rest, k, hrest, hafter, -, -⟩ := hreads.run hstrips sizes
    refine ⟨⟨rest, hrest.symm⟩, fun hm => ?_, fun n hn => ⟨?_, fun he => ?_⟩⟩
    · obtain ⟨hfin, hall⟩ := hreads.readAll_ends hstrips hm
      exact Prod.ext hall hfin
    · have hstep : Reader.Step _ _ _ _ _ (nextRead events sizes n) := hreads.step hafter hn
      generalize nextRead events sizes n = p at hstep
      cases hstep with
      | error e s _ hfin => cases hfin
      | pending | data | eof =>
        intro e he
        cases he
    · exact (hreads.progress hstrips sizes hn he).resolve_left fun hne => hne rfl
  · have hstrips := strips_responding (stripResponse_of_not_response hnone)
    obtain ⟨rest, k, hrest, hafter, -, -⟩ := hreads.run hstrips sizes
    obtain ⟨-, rfl⟩ := append_eq_nil_iff.mp hrest.symm
    refine ⟨fun hm => ?_, fun n hn => ?_⟩
    · obtain ⟨hfin, hall⟩ := hreads.readAll_ends hstrips hm
      exact Prod.ext hall hfin
    · have hstep : Reader.Step _ _ _ _ _ (nextRead events sizes n) := hreads.step hafter hn
      -- while a read waits, nothing that was seen rules a response out
      have hwait : ∀ j, _ → Strips _ _ [] .error j → _ :=
        fun _ => not_seen_of_pending events sizes (n := n)
      have hlater : ∀ more n', nextRead events (sizes ++ n :: more) n' =
          (Reader.after (pollRead Heard.poll) (nextRead events sizes n).2 more).pollRead
            Heard.poll n' := fun more n' => by
        rw [nextRead, Reader.after, foldl_append]
        rfl
      simp only [hlater]
      generalize nextRead events sizes n = p at hstep hwait ⊢
      cases hstep with
      | pending s j _ h' =>
        refine ⟨fun c hc => ?_, fun hseen => absurd hseen (hwait j rfl h')⟩
        cases hc
      | data c rest s j hne _ hout => exact absurd (append_eq_nil_iff.mp hout.symm).1 hne
      | eof s _ hfin => cases hfin
      | error e s _ _ h' =>
        refine ⟨fun c hc => ?_, fun _ => ⟨⟨e, rfl⟩, fun more n' hn' => ?_⟩⟩
        · cases hc
        · exact (hreads.ended (hreads.ended_after h' more) hn').2 rfl

end ClashMeta.Vless
