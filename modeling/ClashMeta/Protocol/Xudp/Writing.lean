import ClashMeta.Protocol.Xudp.Effects

/-!
# The writing side's invariant

What holds of the writer mutex, the writing futures and `alive` in every state of
every run, proved from `LineStep`:

- whoever writes holds the mutex, and the last write on the stream is theirs;
- a frame that is on the stream in part, with `alive` still set, has its writer;
- every write is of a frame, and a write with status END comes from a close task.
-/

namespace ClashMeta.Xudp

open Table

/-- The last frame is on the stream in part. -/
def Torn (s : Mux) : Prop :=
  ∃ w ws, s.writes = w :: ws ∧ 0 < w.sent ∧ w.sent < w.frame.length

instance : DecidablePred Torn := fun s =>
  match h : s.writes with
  | [] => .isFalse fun ⟨w, ws, hw, _⟩ => nomatch h.symm.trans hw
  | w :: ws => decidable_of_iff (0 < w.sent ∧ w.sent < w.frame.length)
      ⟨fun hw => ⟨w, ws, h, hw⟩, fun ⟨w', ws', hw', hcut⟩ => by
        cases h.symm.trans hw'
        exact hcut⟩

variable [IpText]

/-- The invariant of the writing side. -/
structure LineInv (s : Mux) : Prop where
  /-- whoever writes holds the mutex -/
  holder : ∀ key t, s.tasks.lookup key = some t → t.stage = .writing ∨ t.stage = .failing →
    s.writer = some key
  /-- the last write is the holder's -/
  current : ∀ key t, s.tasks.lookup key = some t → t.stage = .writing →
    ∃ sent ws, s.writes = ⟨t.owner, t.id, t.status, t.frame, sent⟩ :: ws
  /-- a call of `fail_multiplexer` past its swap has cleared the flag -/
  dead : ∀ c f, s.fails.lookup c = some f → f.swapped = true → s.alive = false
  /-- while the flag is set, a cut-off frame still has its writer -/
  torn : Torn s → s.alive = true → ∃ key t, s.tasks.lookup key = some t ∧
    (t.stage = .writing ∨ t.stage = .failing)
  frames : ∀ w ∈ s.writes, IsFrame w.frame ∧ w.sent ≤ w.frame.length
  ready : ∀ key t, s.tasks.lookup key = some t → t.Ready
  /-- only close tasks write END -/
  status : ∀ key t, s.tasks.lookup key = some t → t.status = statusEnd → t.close = true
  fresh : ∀ key t, s.tasks.lookup key = some t → key < s.fresh

theorem lineInv_new : LineInv Mux.new :=
  ⟨nofun, nofun, nofun, fun ⟨_, _, h, _⟩ => (nomatch h), nofun, nofun, nofun, nofun⟩

/-! ## One step -/

variable {s s' : Mux} {a : Action} {k : Nat} {t' : Task}

theorem task_origin (h : LineStep s s' a) (hk : s'.tasks.lookup k = some t') :
    (k = s.fresh ∧ s'.fresh = s.fresh + 1 ∧ t'.Ready ∧
      (t'.status = statusEnd → t'.close = true) ∧
      (t'.close = true → ∃ m inRuntime, a = .dropSession t'.owner inRuntime ∧
        s.sessions.lookup t'.owner = some m ∧ t'.id = m.id)) ∨
    (s.fresh ≤ s'.fresh ∧ ∃ t, s.tasks.lookup k = some t ∧ t.Later t') := by
  -- the two shapes of the update of a future that exists
  have hinsert : ∀ {key t t₁}, s.tasks.lookup key = some t → s'.tasks = s.tasks.insert key t₁ →
      t.Later t₁ → ∃ t, s.tasks.lookup k = some t ∧ t.Later t' := by
    intro key t t₁ hkey htasks hlater
    rw [htasks] at hk
    obtain ⟨heq, rfl⟩ | ⟨-, hk⟩ := lookup_insert_cases hk
    · exact ⟨t, heq ▸ hkey, hlater⟩
    · exact ⟨t', hk, .refl t'⟩
  have herase : ∀ {key}, s'.tasks = s.tasks.erase key →
      ∃ t, s.tasks.lookup k = some t ∧ t.Later t' := by
    intro key htasks
    rw [htasks] at hk
    obtain ⟨-, hk⟩ := lookup_erase_some hk
    exact ⟨t', hk, .refl t'⟩
  have hsame : s'.tasks = s.tasks → ∃ t, s.tasks.lookup k = some t ∧ t.Later t' := by
    intro htasks
    exact ⟨t', htasks ▸ hk, .refl t'⟩
  cases h with
  | quiet _ _ htasks hfresh => exact .inr ⟨hfresh, hsame htasks⟩
  | spawn t _ hready hstatus hdrop _ _ htasks hfresh =>
    rw [htasks] at hk
    obtain ⟨heq, rfl⟩ | ⟨-, hk⟩ := lookup_insert_cases hk
    · exact .inl ⟨heq, hfresh, hready, hstatus, hdrop⟩
    · exact .inr ⟨by omega, t', hk, .refl t'⟩
  | ready key t t₁ hkey _ _ hlater _ _ htasks hfresh =>
    exact .inr ⟨hfresh.ge, hinsert hkey htasks hlater⟩
  | leave key t hkey _ _ _ _ _ htasks hfresh | commit key t w ws hkey _ _ _ _ _ _ _ htasks hfresh
  | retire key t f hkey _ _ _ _ _ _ htasks hfresh =>
    exact .inr ⟨hfresh.ge, herase htasks⟩
  | grant key t _ hkey hstage _ _ _ _ _ _ htasks hfresh
  | giveUp key t hkey hstage _ _ htasks hfresh =>
    exact .inr ⟨hfresh.ge, hinsert hkey htasks (.of_stage (by simp [hstage]) _)⟩
  | accept key t n w ws _ _ _ _ _ _ _ _ _ _ htasks hfresh | poison c f _ _ _ _ htasks hfresh =>
    exact .inr ⟨hfresh.ge, hsame htasks⟩

/-- Futures keep distinct keys below `fresh`, carry a frame once they wait, and
write END only as close tasks. -/
theorem task_step (hinv : LineInv s) (h : LineStep s s' a) (hk : s'.tasks.lookup k = some t') :
    k < s'.fresh ∧ t'.Ready ∧ (t'.status = statusEnd → t'.close = true) := by
  obtain ⟨rfl, hfresh, hready, hstatus, -⟩ | ⟨hfresh, t, ht, hlater⟩ := task_origin h hk
  · exact ⟨by omega, hready, hstatus⟩
  · refine ⟨lt_of_lt_of_le (hinv.fresh k t ht) hfresh, hlater.ready (hinv.ready k t ht), ?_⟩
    intro hend
    rw [hlater.close]
    exact hinv.status k t ht (hlater.status hend)

theorem dead_step (hinv : LineInv s) (h : LineStep s s' a) {c : Caller} {f : FailCall}
    (hc : s'.fails.lookup c = some f) (hf : f.swapped) : s'.alive = false := by
  have hold : NoSwap s s' → s'.alive = s.alive → s'.alive = false := fun hswap halive =>
    halive.trans (hinv.dead c f (hswap c f hc hf) hf)
  cases h with
  | quiet hline hswap | spawn t _ _ _ _ hline hswap | ready key t t₁ _ _ _ _ hline hswap
  | giveUp key t _ _ hline hswap =>
    exact hold hswap hline.alive
  | leave key t _ _ _ _ halive hswap | grant key t _ _ _ _ _ _ _ halive hswap
  | accept key t n w ws _ _ _ _ _ _ _ _ halive hswap | commit key t w ws _ _ _ _ _ _ halive hswap
  | retire key t f _ _ _ _ _ halive hswap =>
    exact hold hswap halive
  | poison c f _ _ _ halive => exact halive

omit [IpText] in
theorem released_of_ne {key : Nat} (hk : s.writer = some k) (hne : k ≠ key) :
    released s key = some k := by
  unfold released
  rw [hk, if_neg (by simpa using hne)]

theorem holder_step (hinv : LineInv s) (h : LineStep s s' a) (hk : s'.tasks.lookup k = some t')
    (hw : t'.stage = .writing ∨ t'.stage = .failing) : s'.writer = some k := by
  -- a future that ends releases nothing of another holder
  have herase : ∀ {key}, s'.tasks = s.tasks.erase key → s'.writer = released s key →
      s'.writer = some k := by
    intro key htasks hwriter
    rw [htasks] at hk
    obtain ⟨hne, hk⟩ := lookup_erase_some hk
    rw [hwriter]
    exact released_of_ne (hinv.holder k t' hk hw) hne
  cases h with
  | quiet hline _ htasks =>
    rw [htasks] at hk
    rw [hline.writer]
    exact hinv.holder k t' hk hw
  | spawn t hstage _ _ _ hline _ htasks =>
    rw [htasks] at hk
    obtain ⟨-, rfl⟩ | ⟨-, hk⟩ := lookup_insert_cases hk
    · simp [hstage] at hw
    · rw [hline.writer]
      exact hinv.holder k t' hk hw
  | ready key t t₁ _ _ hstage' _ hline _ htasks =>
    rw [htasks] at hk
    obtain ⟨-, rfl⟩ | ⟨-, hk⟩ := lookup_insert_cases hk
    · simp [hstage'] at hw
    · rw [hline.writer]
      exact hinv.holder k t' hk hw
  | leave key t _ _ hwriter _ _ _ htasks | commit key t w ws _ _ _ _ hwriter _ _ _ htasks
  | retire key t f _ _ _ hwriter _ _ _ htasks =>
    exact herase htasks hwriter
  | grant key t _ _ _ hfree _ hwriter _ _ _ htasks =>
    rw [htasks] at hk
    obtain ⟨heq, -⟩ | ⟨-, hk⟩ := lookup_insert_cases hk
    · rw [hwriter, heq]
    · rw [hinv.holder k t' hk hw] at hfree
      cases hfree
  | accept key t n w ws _ _ _ _ _ _ hwriter _ _ _ htasks | poison c f _ hwriter _ _ htasks =>
    rw [htasks] at hk
    rw [hwriter]
    exact hinv.holder k t' hk hw
  | giveUp key t hkey hstage hline _ htasks =>
    rw [hline.writer]
    rw [htasks] at hk
    obtain ⟨heq, -⟩ | ⟨-, hk⟩ := lookup_insert_cases hk
    · rw [heq]
      exact hinv.holder key t hkey (.inl hstage)
    · exact hinv.holder k t' hk hw

omit [IpText] in
theorem torn_congr (h : s'.writes = s.writes) : Torn s' ↔ Torn s := by
  unfold Torn
  rw [h]

theorem torn_step (hinv : LineInv s) (h : LineStep s s' a) (htorn : Torn s')
    (halive' : s'.alive) :
    ∃ key t, s'.tasks.lookup key = some t ∧ (t.stage = .writing ∨ t.stage = .failing) := by
  -- the writer there was stays, unless the step is about its own future
  have hkeep : s'.writes = s.writes → s'.alive = s.alive →
      (∀ k t, s.tasks.lookup k = some t → t.stage = .writing ∨ t.stage = .failing →
        s'.tasks.lookup k = some t) →
      ∃ key t, s'.tasks.lookup key = some t ∧ (t.stage = .writing ∨ t.stage = .failing) := by
    intro hwrites halive htasks
    obtain ⟨k, t, hk, hw⟩ := hinv.torn ((torn_congr hwrites).mp htorn) (halive ▸ halive')
    exact ⟨k, t, htasks k t hk hw, hw⟩
  cases h with
  | quiet hline _ htasks =>
    exact hkeep hline.writes hline.alive fun k t hk _ => htasks ▸ hk
  | spawn t _ _ _ _ hline _ htasks =>
    refine hkeep hline.writes hline.alive fun k t hk _ => ?_
    rw [htasks, AList.lookup_insert_ne (ne_of_lt (hinv.fresh k t hk))]
    exact hk
  | ready key t t₁ hkey hstage _ _ hline _ htasks =>
    refine hkeep hline.writes hline.alive fun k t hk hw => ?_
    rw [htasks, lookup_insert_if, if_neg]
    · exact hk
    · rintro rfl
      rw [hkey] at hk
      cases hk
      simp [hstage] at hw
  | leave key t hkey hstage _ hwrites halive _ htasks =>
    refine hkeep hwrites halive fun k t hk hw => ?_
    rw [htasks, lookup_erase_if, if_neg]
    · exact hk
    · rintro rfl
      rw [hkey] at hk
      cases hk
      rcases hstage with hstage | hstage <;> simp [hstage] at hw
  | grant key t _ _ _ _ _ _ hwrites =>
    obtain ⟨w, ws, hlast, hpos, -⟩ := htorn
    rw [hwrites] at hlast
    cases hlast
    exact absurd hpos (lt_irrefl 0)
  | accept key t n w ws _ hkey hstage _ _ _ _ _ _ _ htasks =>
    exact ⟨key, t, htasks ▸ hkey, .inl hstage⟩
  | commit key t w ws _ _ hlast hdone _ hwrites =>
    obtain ⟨w', ws', hlast', -, hlt⟩ := htorn
    rw [hwrites, hlast] at hlast'
    cases hlast'
    omega
  | giveUp key t _ _ _ _ htasks =>
    refine ⟨key, { t with stage := .failing }, ?_, .inr rfl⟩
    rw [htasks, AList.lookup_insert]
  | poison c f _ _ _ halive =>
    rw [halive] at halive'
    cases halive'
  | retire key t f _ hcall hdead _ _ halive =>
    -- the call has swapped, or the flag was already clear
    have hclear : s.alive = false := hdead.elim (hinv.dead _ f hcall) id
    rw [halive, hclear] at halive'
    cases halive'

theorem current_step (hinv : LineInv s) (h : LineStep s s' a) (hk : s'.tasks.lookup k = some t')
    (hw : t'.stage = .writing) :
    ∃ sent ws, s'.writes = ⟨t'.owner, t'.id, t'.status, t'.frame, sent⟩ :: ws := by
  have hkeep : s'.writes = s.writes → s.tasks.lookup k = some t' →
      ∃ sent ws, s'.writes = ⟨t'.owner, t'.id, t'.status, t'.frame, sent⟩ :: ws := by
    intro hwrites hk
    rw [hwrites]
    exact hinv.current k t' hk hw
  have herase : ∀ {key}, s'.writes = s.writes → s'.tasks = s.tasks.erase key →
      ∃ sent ws, s'.writes = ⟨t'.owner, t'.id, t'.status, t'.frame, sent⟩ :: ws := by
    intro key hwrites htasks
    rw [htasks] at hk
    obtain ⟨-, hk⟩ := lookup_erase_some hk
    exact hkeep hwrites hk
  -- a future put into another stage than `writing` is not the one asked for
  have hinsert : ∀ {key t₁}, s'.writes = s.writes → s'.tasks = s.tasks.insert key t₁ →
      t₁.stage ≠ .writing →
      ∃ sent ws, s'.writes = ⟨t'.owner, t'.id, t'.status, t'.frame, sent⟩ :: ws := by
    intro key t₁ hwrites htasks hstage
    rw [htasks] at hk
    obtain ⟨-, rfl⟩ | ⟨-, hk⟩ := lookup_insert_cases hk
    · exact absurd hw hstage
    · exact hkeep hwrites hk
  cases h with
  | quiet hline _ htasks => exact hkeep hline.writes (htasks ▸ hk)
  | spawn t hstage _ _ _ hline _ htasks =>
    exact hinsert hline.writes htasks (by simp [hstage])
  | ready key t t₁ _ _ hstage' _ hline _ htasks =>
    exact hinsert hline.writes htasks (by simp [hstage'])
  | leave key t _ _ _ hwrites _ _ htasks | commit key t w ws _ _ _ _ _ hwrites _ _ htasks
  | retire key t f _ _ _ _ hwrites _ _ htasks =>
    exact herase hwrites htasks
  | grant key t _ _ _ hfree _ _ hwrites _ _ htasks =>
    rw [htasks] at hk
    obtain ⟨-, rfl⟩ | ⟨-, hk⟩ := lookup_insert_cases hk
    · exact ⟨0, s.writes, hwrites⟩
    · -- no other future writes while the mutex is free
      rw [hinv.holder k t' hk (.inl hw)] at hfree
      cases hfree
  | accept key t n w ws _ _ _ _ hlast _ _ hwrites _ _ htasks =>
    obtain ⟨sent, ws', hcur⟩ := hinv.current k t' (htasks ▸ hk) hw
    rw [hlast] at hcur
    cases hcur
    exact ⟨_, ws, hwrites⟩
  | giveUp key t _ _ hline _ htasks => exact hinsert hline.writes htasks (by simp)
  | poison c f _ _ hwrites _ htasks => exact hkeep hwrites (htasks ▸ hk)

/-- What a step does to the list of writes: nothing, a new write by the future
that takes the mutex, or bytes accepted for the last one. -/
theorem writes_cases (h : LineStep s s' a) :
    s'.writes = s.writes ∨
    (∃ key t, a = .lockWriter key ∧ s.tasks.lookup key = some t ∧ t.stage = .waiting ∧
      s.writer = none ∧ (t.close = false → s.alive = true) ∧
      s'.writes = ⟨t.owner, t.id, t.status, t.frame, 0⟩ :: s.writes) ∨
    ∃ key t n w ws, a = .accept key n ∧ s.tasks.lookup key = some t ∧ t.stage = .writing ∧
      s.writes = w :: ws ∧ w.sent + n ≤ w.frame.length ∧
      s'.writes = { w with sent := w.sent + n } :: ws := by
  cases h with
  | quiet hline | spawn t _ _ _ _ hline | ready key t t₁ _ _ _ _ hline | giveUp key t _ _ hline =>
    exact .inl hline.writes
  | leave key t _ _ _ hwrites | commit key t w ws _ _ _ _ _ hwrites | poison c f _ _ hwrites
  | retire key t f _ _ _ _ hwrites =>
    exact .inl hwrites
  | grant key t haction hkey hstage hfree hsend _ hwrites =>
    exact .inr (.inl ⟨key, t, haction, hkey, hstage, hfree, hsend, hwrites⟩)
  | accept key t n w ws haction hkey hstage _ hlast hfit _ hwrites =>
    exact .inr (.inr ⟨key, t, n, w, ws, haction, hkey, hstage, hlast, hfit, hwrites⟩)

theorem frames_step (hinv : LineInv s) (h : LineStep s s' a) :
    ∀ w ∈ s'.writes, IsFrame w.frame ∧ w.sent ≤ w.frame.length := by
  intro w' hw'
  obtain hwrites | ⟨key, t, -, hkey, hstage, -, -, hwrites⟩ |
    ⟨key, t, n, w, ws, -, -, -, hlast, hfit, hwrites⟩ := writes_cases h
  · exact hinv.frames w' (hwrites ▸ hw')
  · rw [hwrites] at hw'
    rcases List.mem_cons.mp hw' with rfl | hw'
    · exact ⟨hinv.ready key t hkey (.inl (by simp [hstage])), Nat.zero_le _⟩
    · exact hinv.frames w' hw'
  · rw [hwrites] at hw'
    rcases List.mem_cons.mp hw' with rfl | hw'
    · exact ⟨(hinv.frames w (by simp [hlast])).1, hfit⟩
    · exact hinv.frames w' (by simp [hlast, hw'])

/-- **One step keeps the invariant.** -/
theorem lineInv_step (hinv : LineInv s) (h : s.step a = some s') : LineInv s' := by
  have hline := (step_effect h).line
  exact {
    holder := fun k t hk hw => holder_step hinv hline hk hw
    current := fun k t hk hw => current_step hinv hline hk hw
    dead := fun c f hc hf => dead_step hinv hline hc hf
    torn := torn_step hinv hline
    frames := frames_step hinv hline
    ready := fun k t hk => (task_step hinv hline hk).2.1
    status := fun k t hk => (task_step hinv hline hk).2.2
    fresh := fun k t hk => (task_step hinv hline hk).1 }

theorem lineInv_of_reaches {ok : Mux → Action → Prop} (h : muxSystem.Reaches ok Mux.new s) :
    LineInv s :=
  h.invariant lineInv_new fun hinv _ hs => lineInv_step hinv hs

end ClashMeta.Xudp
