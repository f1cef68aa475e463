import ClashMeta.Protocol.Xudp.Writing

/-!
# Frame atomicity on the shared stream

The physical stream should carry whole frames, with at most one frame cut off at the end, and
nothing after a cut. A `send` checks `alive` again once it holds the writer mutex. The close task
of a dropped session checks it only before it waits for the mutex (xudp.rs:325-330): when the
holder is cancelled inside its frame, the close task is the next holder and writes its END frame
behind the cut (`close_writes_behind_cut`).
-/

namespace ClashMeta.Xudp

open List

/-- Some future is inside `write_all` or `flush`. -/
def Writing (s : Mux) : Prop :=
  ∃ key t, s.tasks.lookup key = some t ∧ t.stage = .writing

instance : DecidablePred Writing := fun s =>
  decidable_of_iff (∃ t ∈ Table.values s.tasks, t.stage = .writing) <| by
    simp only [Table.mem_values_iff, Writing]
    constructor
    · rintro ⟨t, ⟨key, hkey⟩, hw⟩
      exact ⟨key, t, hkey, hw⟩
    · rintro ⟨key, t, hkey, hw⟩
      exact ⟨t, ⟨key, hkey⟩, hw⟩

/-- A frame is on the stream in part and nobody is writing the rest. -/
def Abandoned (s : Mux) : Prop := Torn s ∧ ¬ Writing s

/-- The step does not hand the writer mutex to a close task behind a cut-off
frame with `alive` cleared. -/
def CloseChecked (s : Mux) (a : Action) : Prop :=
  ∀ key t, a = .lockWriter key → s.tasks.lookup key = some t → t.close = true →
    s.alive = true ∨ ¬ Torn s

instance : DecidableRel CloseChecked := fun s a =>
  match a with
  | .lockWriter key =>
    decidable_of_iff (∀ t ∈ s.tasks.lookup key, t.close = true → s.alive = true ∨ ¬ Torn s)
      ⟨fun h _ t hk ht => h t (by cases hk; exact ht), fun h t ht => h key t rfl ht⟩
  | .session _ _ | .dropSession _ _ | .send _ _ _ | .lockState _ | .poll _ | .accept _ _
  | .flushed _ | .writeError _ | .cancel _ | .swap _ | .sweep _ | .peer _ _ | .deliver
  | .readError _ | .dropMux | .recv _ => .isTrue nofun

instance : DecidablePred Abandoned := fun s => inferInstanceAs (Decidable (Torn s ∧ ¬ Writing s))

section

variable [IpText]

/-- Bytes made of whole frames and at most one frame cut off at the end. -/
def WholeFrames (bytes : List Byte) : Prop :=
  ∃ frames rest, bytes = List.flatten frames ++ rest ∧ (∀ f ∈ frames, IsFrame f) ∧
    ∃ f, IsFrame f ∧ rest <+: f ∧ rest ≠ f

/-- A write that leaves the stream between two frames. -/
def Write.Settled (w : Write) : Prop := w.sent = 0 ∨ w.sent = w.frame.length

/-! ## One step -/

variable {s s' : Mux} {a : Action}

theorem not_torn_of_grant (hinv : LineInv s) (hok : CloseChecked s a) {key : Nat} {t : Task}
    (haction : a = .lockWriter key) (hkey : s.tasks.lookup key = some t)
    (hfree : s.writer = none) (hsend : t.close = false → s.alive = true) : ¬ Torn s := by
  -- a cut-off frame with the flag set still has a holder, so the mutex is not free
  have hheld : s.alive = true → ¬ Torn s := by
    intro halive htorn
    obtain ⟨k, t', hk, hw⟩ := hinv.torn htorn halive
    rw [hinv.holder k t' hk hw] at hfree
    cases hfree
  cases hc : t.close with
  | false => exact hheld (hsend hc)
  | true => exact (hok key t haction hkey hc).elim hheld id

omit [IpText] in
theorem settled_of_not_torn (hnt : ¬ Torn s) {w : Write} {ws : List Write}
    (hlast : s.writes = w :: ws) (hle : w.sent ≤ w.frame.length) : w.Settled := by
  by_contra hcut
  obtain ⟨h0, hlen⟩ := not_or.mp hcut
  exact hnt ⟨w, ws, hlast, pos_of_ne_zero h0, lt_of_le_of_ne hle hlen⟩

/-- All writes but the last leave the stream between two frames. -/
def SettledBefore (s : Mux) : Prop := ∀ w ∈ s.writes.tail, w.Settled

/-- **One step keeps the stream between frames** below the last write, when a
close task finds the flag set or the last frame whole. -/
theorem settledBefore_step (hinv : LineInv s) (hsettled : SettledBefore s)
    (hok : CloseChecked s a) (h : s.step a = some s') : SettledBefore s' := by
  intro w' hw'
  obtain hwrites | ⟨key, t, haction, hkey, hstage, hfree, hsend, hwrites⟩ |
    ⟨key, t, n, w, ws, -, -, -, hlast, -, hwrites⟩ := writes_cases (step_effect h).line
  · exact hsettled w' (hwrites ▸ hw')
  · have hnt : ¬ Torn s := not_torn_of_grant hinv hok haction hkey hfree hsend
    rw [hwrites] at hw'
    -- the write before is whole or empty; those before it were already
    cases hlast : s.writes with
    | nil =>
      rw [hlast] at hw'
      cases hw'
    | cons w₀ ws =>
      rw [hlast] at hw'
      rcases mem_cons.mp hw' with rfl | hw'
      · exact settled_of_not_torn hnt hlast (hinv.frames w' (by simp [hlast])).2
      · exact hsettled w' (by simpa [hlast] using hw')
  · rw [hwrites] at hw'
    exact hsettled w' (by simpa [hlast] using hw')

/-! ## The stream -/

/-- Writes that leave the stream between two frames have put whole frames on
it. -/
theorem settled_flatMap {ws : List Write} (hframes : ∀ w ∈ ws, IsFrame w.frame)
    (hsettled : ∀ w ∈ ws, w.Settled) :
    ∃ frames, ws.reverse.flatMap Write.bytes = List.flatten frames ∧ ∀ f ∈ frames, IsFrame f := by
  induction ws with
  | nil => exact ⟨[], rfl, nofun⟩
  | cons w ws ih =>
    obtain ⟨frames, hflat, hall⟩ := ih (fun w hw => hframes w (mem_cons_of_mem _ hw))
      (fun w hw => hsettled w (mem_cons_of_mem _ hw))
    rw [reverse_cons, flatMap_append, hflat]
    rcases hsettled w mem_cons_self with hzero | hwhole
    · exact ⟨frames, by simp [Write.bytes, hzero], hall⟩
    · refine ⟨frames ++ [w.frame], by simp [Write.bytes, hwhole], ?_⟩
      intro f hf
      rcases mem_append.mp hf with hf | hf
      · exact hall f hf
      · rw [mem_singleton.mp hf]
        exact hframes w mem_cons_self

theorem wholeFrames_of_inv (hinv : LineInv s) (hsettled : SettledBefore s) :
    WholeFrames s.wire := by
  unfold WholeFrames Mux.wire
  cases hlast : s.writes with
  | nil => exact ⟨[], [], rfl, nofun, endFrame 0, isFrame_endFrame 0,
      nil_prefix, (isFrame_endFrame 0).ne_nil.symm⟩
  | cons w ws =>
    have hframes := hinv.frames
    unfold SettledBefore at hsettled
    rw [hlast] at hframes hsettled
    obtain ⟨frames, hflat, hall⟩ := settled_flatMap
      (fun w hw => (hframes w (mem_cons_of_mem _ hw)).1) hsettled
    obtain ⟨hw, hle⟩ := hframes w mem_cons_self
    rw [reverse_cons, flatMap_append, hflat, flatMap_singleton]
    by_cases hwhole : w.sent = w.frame.length
    · -- the last frame is whole, and nothing follows it
      refine ⟨frames ++ [w.frame], [], by simp [Write.bytes, hwhole], ?_, w.frame, hw,
        nil_prefix, hw.ne_nil.symm⟩
      intro f hf
      rcases mem_append.mp hf with hf | hf
      · exact hall f hf
      · rw [mem_singleton.mp hf]
        exact hw
    · refine ⟨frames, w.bytes, rfl, hall, w.frame, hw, take_prefix _ _, ?_⟩
      intro heq
      have hlen := congrArg List.length heq
      rw [Write.bytes, length_take] at hlen
      omega

theorem abandoned_step (hinv : LineInv s) (habandoned : Abandoned s) (hok : CloseChecked s a)
    (h : s.step a = some s') : Abandoned s' ∧ s'.wire = s.wire := by
  obtain ⟨htorn, hidle⟩ := habandoned
  have hkeep : s'.writes = s.writes → ¬ Writing s' → Abandoned s' ∧ s'.wire = s.wire := by
    intro hwrites hidle'
    refine ⟨⟨(torn_congr hwrites).mpr htorn, hidle'⟩, ?_⟩
    unfold Mux.wire
    rw [hwrites]
  have hsame : s'.tasks = s.tasks → ¬ Writing s' := by
    rintro htasks ⟨k, t, hk, hw⟩
    exact hidle ⟨k, t, htasks ▸ hk, hw⟩
  have herase : ∀ {key}, s'.tasks = s.tasks.erase key → ¬ Writing s' := by
    rintro key htasks ⟨k, t, hk, hw⟩
    rw [htasks] at hk
    obtain ⟨-, hk⟩ := Table.lookup_erase_some hk
    exact hidle ⟨k, t, hk, hw⟩
  have hinsert : ∀ {key t₁}, s'.tasks = s.tasks.insert key t₁ → t₁.stage ≠ .writing →
      ¬ Writing s' := by
    rintro key t₁ htasks hstage ⟨k, t, hk, hw⟩
    rw [htasks] at hk
    obtain ⟨-, rfl⟩ | ⟨-, hk⟩ := Table.lookup_insert_cases hk
    · exact hstage hw
    · exact hidle ⟨k, t, hk, hw⟩
  -- only a grant starts a write, and behind a cut the condition rules it out
  cases (step_effect h).line with
  | quiet hline _ htasks => exact hkeep hline.writes (hsame htasks)
  | spawn t hstage _ _ _ hline _ htasks =>
    exact hkeep hline.writes (hinsert htasks (by simp [hstage]))
  | ready key t t₁ _ _ hstage' _ hline _ htasks =>
    exact hkeep hline.writes (hinsert htasks (by simp [hstage']))
  | leave key t _ _ _ hwrites _ _ htasks | retire key t f _ _ _ _ hwrites _ _ htasks =>
    exact hkeep hwrites (herase htasks)
  | grant key t haction hkey _ hfree hsend =>
    exact absurd htorn (not_torn_of_grant hinv hok haction hkey hfree hsend)
  | accept key t n w ws _ hkey hstage | commit key t w ws hkey hstage | giveUp key t hkey hstage =>
    exact absurd ⟨key, t, hkey, hstage⟩ hidle
  | poison c f _ _ hwrites _ htasks => exact hkeep hwrites (hsame htasks)

/-- **Frame atomicity**: when a close task takes the writer mutex only with
`alive` set or the last frame whole, the stream holds whole frames and at most
one frame cut off at its end, and nothing is written once the cut-off frame is
abandoned. -/
theorem frames_atomic (h : muxSystem.Reaches CloseChecked Mux.new s) :
    WholeFrames s.wire ∧
      (Abandoned s → ∀ s', muxSystem.Reaches CloseChecked s s' → s'.wire = s.wire) := by
  have hinv : LineInv s ∧ SettledBefore s := by
    refine h.invariant (I := fun s => LineInv s ∧ SettledBefore s)
      ⟨lineInv_new, nofun⟩ ?_
    intro s t a ⟨hinv, hsettled⟩ hok hs
    exact ⟨lineInv_step hinv hs, settledBefore_step hinv hsettled hok hs⟩
  refine ⟨wholeFrames_of_inv hinv.1 hinv.2, fun habandoned s' hs' => ?_⟩
  exact hs'.stable hinv.1 habandoned (fun hinv _ hs => lineInv_step hinv hs) abandoned_step

end

/-! ## The close task behind a cut-off frame -/

/-- Two sessions; the first starts to send, one byte is accepted; the second is
dropped and its close task waits for the mutex; the `send` is cancelled. -/
def cutOff : List Action :=
  [.session ⟨['a'], 53⟩ none, .session ⟨['a'], 53⟩ none, .send 0 ⟨['a'], 53⟩ [1, 2],
    .lockState 2, .lockWriter 2, .accept 2 1, .dropSession 1 true, .poll 3, .cancel 2]

/-- The cancelled `send` clears `alive` and releases the mutex. -/
def failed : List Action := [.swap (.task 2), .sweep (.task 2)]

/-- That run leaves one byte of a frame behind; while no close task takes the
mutex, it stays the only one. -/
theorem frames_atomic_cutOff :
    ∃ s s', (@muxSystem .namesOnly).Reaches CloseChecked Mux.new s ∧ Abandoned s ∧
      (@muxSystem .namesOnly).Reaches CloseChecked s s' ∧ s'.alive = false ∧
      s'.wire = s.wire := by
  refine ⟨_, _, Lts.run_reaches cutOff rfl, ?_, Lts.run_reaches failed rfl, rfl, ?_⟩
  · decide +kernel
  · exact (@frames_atomic .namesOnly _ (Lts.run_reaches cutOff rfl)).2 (by decide +kernel) _
      (Lts.run_reaches failed rfl)

/-- The close task takes the mutex and writes its END frame behind the one byte
of the abandoned frame. -/
theorem close_writes_behind_cut :
    ∃ s s', (@muxSystem .namesOnly).Reaches Lts.anyStep Mux.new s ∧ Abandoned s ∧
      (@muxSystem .namesOnly).Reaches Lts.anyStep s s' ∧
      s.wire = [0] ∧ s'.wire = [0, 0, 4, 0, 1, 3, 0] := by
  refine ⟨_, _, Lts.run_reaches cutOff rfl, ?_,
    Lts.run_reaches (failed ++ [.lockWriter 3, .accept 3 6]) rfl, rfl, rfl⟩
  decide +kernel

end ClashMeta.Xudp
