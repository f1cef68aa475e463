import ClashMeta.Protocol.Xudp.Session

/-!
# The two readers of XUDP metadata (protocol/src/xudp.rs)

The single session (`metadata`, lines 360-396) and the multiplexer
(`multiplexed_metadata`, lines 189-221) read the same header, each with its own
order of checks. `metadata` knows only session 0 and has no use for a frame that
ends it, so it refuses both; of every other header the two make the same, down to
the message of a refusal.
-/

namespace ClashMeta.Xudp

open Except

theorem ofNat_fromBe16_eq_zero_iff (hi lo : Byte) :
    UInt16.ofNat (fromBe16 hi lo) = 0 ↔ fromBe16 hi lo = 0 := by
  have hhi := hi.toNat_lt
  have hlo := lo.toNat_lt
  have hlt : fromBe16 hi lo < 65536 := by
    unfold fromBe16
    omega
  rw [← UInt16.toNat_inj, UInt16.toNat_ofNat_of_lt' hlt]
  rfl

theorem exists_front {b : List Byte} (hb : 4 ≤ b.length) :
    ∃ hi lo status flags rest, b = hi :: lo :: status :: flags :: rest := by
  match b, hb with
  | hi :: lo :: status :: flags :: rest, _ => exact ⟨hi, lo, status, flags, rest, rfl⟩

section

variable [IpText] {hi lo status flags : Byte} {rest : List Byte}

/-- What the single session keeps of the metadata the multiplexer reads. -/
def Metadata.reply (d : Target) (m : Metadata) : Target × Bool := (m.target.getD d, m.data)

/-- **On its own frames the single session reads what the multiplexer reads**, refusals
included. -/
theorem metadata_eq_map (d : Target) (hid : status = statusKeepalive ∨ fromBe16 hi lo = 0)
    (hend : status ≠ statusEnd) :
    metadata (hi :: lo :: status :: flags :: rest) d =
      Metadata.reply d <$> multiplexedMetadata (hi :: lo :: status :: flags :: rest) := by
  unfold metadata multiplexedMetadata
  simp only [map_refuse]
  refine ensure_bind_eq_refuse not_le.symm fun _ => ?_
  refine ensure_bind_eq_refuse .rfl fun _ => ?_
  refine ensure_bind_eq_refuse .rfl fun _ => ?_
  rw [ensure_of hid, ensure_of hend, ok_bind]
  refine ensure_bind_eq_refuse (by tauto) fun _ => ?_
  cases metadataTarget (hi :: lo :: status :: flags :: rest) status with
  | error e => rfl
  | ok target =>
    rw [ok_bind, ok_bind, map_refuse]
    exact ensure_bind_eq_refuse (by tauto) fun _ => rfl

theorem metadata_refuses (d : Target)
    (h : (status ≠ statusKeepalive ∧ fromBe16 hi lo ≠ 0) ∨ status = statusEnd) :
    ∃ e, metadata (hi :: lo :: status :: flags :: rest) d = .error e := by
  cases hr : metadata (hi :: lo :: status :: flags :: rest) d with
  | error e => exact ⟨e, rfl⟩
  | ok r =>
    unfold metadata at hr
    simp only [bind_eq_ok_iff, ensure_eq_ok_iff, exists_const] at hr
    tauto

theorem front_of_multiplexedMetadata {m : Metadata}
    (h : multiplexedMetadata (hi :: lo :: status :: flags :: rest) = .ok m) :
    m.id = UInt16.ofNat (fromBe16 hi lo) ∧ m.status = status := by
  unfold multiplexedMetadata at h
  dsimp only at h
  iterate 4
    split at h
    · cases h
  obtain ⟨target, -, h⟩ := bind_eq_ok_iff.mp h
  split at h
  · cases h
  · cases h
    exact ⟨rfl, rfl⟩

theorem metadata_short {b : List Byte} (hb : b.length < 4) (d : Target) :
    metadata b d = .error "invalid XUDP metadata length" ∧
      multiplexedMetadata b = .error "invalid XUDP metadata length" := by
  match b, hb with
  | [], _ | [_], _ | [_, _], _ | [_, _, _], _ => exact ⟨rfl, rfl⟩

theorem metadata_eq_ok_iff (b : List Byte) (d t : Target) (f : Bool) :
    metadata b d = .ok (t, f) ↔
      ∃ m, multiplexedMetadata b = .ok m ∧ m.status ≠ statusEnd ∧
        (m.status ≠ statusKeepalive → m.id = 0) ∧ t = m.target.getD d ∧ f = m.data := by
  rcases lt_or_ge b.length 4 with hb | hb
  · obtain ⟨hsingle, hmux⟩ := metadata_short hb d
    rw [hsingle, hmux]
    exact ⟨nofun, fun ⟨_, h, _⟩ => (nomatch h)⟩
  · obtain ⟨hi, lo, status, flags, rest, rfl⟩ := exists_front hb
    by_cases hown : (status = statusKeepalive ∨ fromBe16 hi lo = 0) ∧ status ≠ statusEnd
    · rw [metadata_eq_map d hown.1 hown.2, map_eq_ok_iff]
      constructor
      · rintro ⟨m, hm, hreply⟩
        obtain ⟨hid, hstatus⟩ := front_of_multiplexedMetadata hm
        cases hreply
        refine ⟨m, hm, hstatus ▸ hown.2, fun hkeep => ?_, rfl, rfl⟩
        rw [hid, ofNat_fromBe16_eq_zero_iff]
        exact hown.1.resolve_left (hstatus ▸ hkeep)
      · rintro ⟨m, hm, -, -, rfl, rfl⟩
        exact ⟨m, hm, rfl⟩
    · obtain ⟨e, he⟩ : ∃ e, metadata (hi :: lo :: status :: flags :: rest) d = .error e :=
        metadata_refuses d (by tauto)
      rw [he]
      refine ⟨nofun, ?_⟩
      rintro ⟨m, hm, hend, hid, -⟩
      obtain ⟨hmid, rfl⟩ := front_of_multiplexedMetadata hm
      rw [hmid, ofNat_fromBe16_eq_zero_iff] at hid
      tauto

theorem metadata_eq_error {b : List Byte} {d : Target} {e : String}
    (h : metadata b d = .error e) :
    multiplexedMetadata b = .error e ∨ b[2]? = some statusEnd ∨
      (b[2]? ≠ some statusKeepalive ∧ b.take 2 ≠ [0, 0]) := by
  rcases lt_or_ge b.length 4 with hb | hb
  · obtain ⟨hsingle, hmux⟩ := metadata_short hb d
    rw [hsingle] at h
    cases h
    exact .inl hmux
  · obtain ⟨hi, lo, status, flags, rest, rfl⟩ := exists_front hb
    by_cases hend : status = statusEnd
    · exact .inr (.inl (congrArg some hend))
    · by_cases hid : status = statusKeepalive ∨ fromBe16 hi lo = 0
      · rw [metadata_eq_map d hid hend] at h
        left
        cases hm : multiplexedMetadata (hi :: lo :: status :: flags :: rest) with
        | error e' =>
          rw [hm] at h
          cases h
          rfl
        | ok m =>
          rw [hm] at h
          cases h
      · obtain ⟨hkeep, hforeign⟩ := not_or.mp hid
        refine .inr (.inr ⟨fun h => hkeep (Option.some.inj h), fun hzero => ?_⟩)
        cases (hzero : [hi, lo] = [0, 0])
        exact hforeign rfl

/-- **The two readers agree**: the single session accepts a header exactly when the
multiplexer does, the frame does not end the session and is for session 0 or a keepalive,
and it keeps the target, or its own, and the data flag. A header it refuses, the multiplexer
refuses with the same message, unless it is for another session or ends this one. -/
theorem metadata_agrees (b : List Byte) (d : Target) :
    (∀ t f, metadata b d = .ok (t, f) ↔
      ∃ m, multiplexedMetadata b = .ok m ∧ m.status ≠ statusEnd ∧
        (m.status ≠ statusKeepalive → m.id = 0) ∧ t = m.target.getD d ∧ f = m.data) ∧
    ∀ e, metadata b d = .error e →
      multiplexedMetadata b = .error e ∨ b[2]? = some statusEnd ∨
        (b[2]? ≠ some statusKeepalive ∧ b.take 2 ≠ [0, 0]) :=
  ⟨metadata_eq_ok_iff b d, fun _ => metadata_eq_error⟩

end

end ClashMeta.Xudp
