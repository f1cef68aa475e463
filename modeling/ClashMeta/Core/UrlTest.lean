import ClashMeta.Core.Policy

/-!
# Latency groups

The task of a url-test group (core/src/lib.rs:333-368) probes its members round after round and
moves the selection to the best one when that is better, by more than the tolerance, than the
delay recorded for the selected member. A probe (lib.rs:941-996) records a delay only when it
succeeds, so the recorded delay of a member that has stopped answering is from an earlier round.
-/

namespace ClashMeta

open List

/-- The outcome of the probe at each position of a round: a delay in milliseconds, or a
failure. -/
abbrev Outcomes := Nat → Option UInt64

/-- `u64::saturating_add`. -/
def saturatingAdd (a b : UInt64) : Nat := min (a.toNat + b.toNat) (2 ^ 64 - 1)

/-- The answers of a round from a position on, in order. -/
def answersFrom (outcomes : Outcomes) : Nat → List Str → List (Str × UInt64)
  | _, [] => []
  | i, name :: rest =>
    match outcomes i with
    | none => answersFrom outcomes (i + 1) rest
    | some d => (name, d) :: answersFrom outcomes (i + 1) rest

/-- The loop over the members (lib.rs:345-353): a successful probe records its delay, and
is the best so far when there is none or it is less. -/
def probeLoop (outcomes : Outcomes) :
    Nat → List Str → Table Str UInt64 → Option (Str × UInt64) →
      Table Str UInt64 × Option (Str × UInt64)
  | _, [], delay, best => (delay, best)
  | i, name :: rest, delay, best =>
    match outcomes i with
    | none => probeLoop outcomes (i + 1) rest delay best
    | some d =>
      probeLoop outcomes (i + 1) rest (delay.insert name d)
        (if best.all fun b => d < b.2 then some (name, d) else best)

section

variable (g : Group) (p : Policy) (outcomes : Outcomes)

/-- The delay recorded for the selected member, `u64::MAX` when there is none. -/
def recorded : Nat :=
  (((p.selection.lookup g.name).bind p.delay.lookup).map UInt64.toNat).getD (2 ^ 64 - 1)

/-- The end of a round (lib.rs:354-365): the selection moves to the best answer when that is
better by more than the tolerance. -/
def settle (best : Option (Str × UInt64)) : Policy :=
  match best with
  | none => p
  | some (target, d) =>
    if saturatingAdd d g.tolerance < recorded g p then
      { p with selection := p.selection.insert g.name target }
    else p

/-- One round of the task. -/
def round : Policy :=
  let (delay, best) := probeLoop outcomes 0 g.proxies p.delay none
  settle g { p with delay := delay } best

/-- The answers of a round. -/
def answers : List (Str × UInt64) := answersFrom outcomes 0 g.proxies

/-- The selected member answered in the round, and no slower than every answer, the best
one included, by more than the tolerance. -/
def Follows : Prop :=
  ∃ name d, p.selection.lookup g.name = some name ∧ (name, d) ∈ answers g outcomes ∧
    ∀ x ∈ answers g outcomes, d.toNat ≤ x.2.toNat + g.tolerance.toNat

/-- The condition on a round, read on the policy before it: the selected member answers in
the round, or an answer beats the delay recorded for it by more than the tolerance. -/
def Movable : Prop :=
  (∃ name d, p.selection.lookup g.name = some name ∧ (name, d) ∈ answers g outcomes) ∨
    ∃ x ∈ answers g outcomes, saturatingAdd x.2 g.tolerance < recorded g p

end

/-! ## One round -/

variable {g : Group} {p : Policy} {outcomes : Outcomes}

/-- The best answer of those seen. -/
def IsBest (best : Option (Str × UInt64)) (seen : List (Str × UInt64)) : Prop :=
  match best with
  | none => seen = []
  | some b => b ∈ seen ∧ ∀ x ∈ seen, b.2 ≤ x.2

/-- The delays after the answers seen: an answer of the member, or what was there before. -/
def Records (before after : Table Str UInt64) (seen : List (Str × UInt64)) : Prop :=
  ∀ name, (∃ d, (name, d) ∈ seen ∧ after.lookup name = some d) ∨
    (∀ d, (name, d) ∉ seen) ∧ after.lookup name = before.lookup name

variable {seen : List (Str × UInt64)}

theorem IsBest.snoc {best : Option (Str × UInt64)} (h : IsBest best seen) (x : Str × UInt64) :
    IsBest (if best.all fun b => x.2 < b.2 then some x else best) (seen ++ [x]) := by
  cases best with
  | none =>
    rw [show seen = [] from h]
    refine ⟨mem_singleton_self x, fun y hy => ?_⟩
    rw [mem_singleton.mp hy]
    exact UInt64.le_refl _
  | some b =>
    obtain ⟨hb, hmin⟩ := h
    by_cases hlt : x.2 < b.2
    · -- a new best
      simp only [Option.all_some, hlt, decide_true, if_true]
      refine ⟨mem_append_right _ (mem_singleton_self x), fun y hy => ?_⟩
      rcases mem_append.mp hy with hy | hy
      · exact UInt64.le_of_lt (UInt64.lt_of_lt_of_le hlt (hmin y hy))
      · rw [mem_singleton.mp hy]
        exact UInt64.le_refl _
    · simp only [Option.all_some, hlt, decide_false, Bool.false_eq_true, if_false]
      refine ⟨mem_append_left _ hb, fun y hy => ?_⟩
      rcases mem_append.mp hy with hy | hy
      · exact hmin y hy
      · rw [mem_singleton.mp hy]
        exact UInt64.not_lt.mp hlt

theorem Records.snoc {before after : Table Str UInt64} (h : Records before after seen) (name : Str)
    (d : UInt64) : Records before (after.insert name d) (seen ++ [(name, d)]) := by
  intro n
  rw [Table.lookup_insert_if]
  by_cases hn : n = name
  · rw [if_pos hn, hn]
    exact .inl ⟨d, mem_append_right _ (mem_singleton_self _), rfl⟩
  · rw [if_neg hn]
    rcases h n with ⟨e, hmem, hlook⟩ | ⟨hnone, hlook⟩
    · exact .inl ⟨e, mem_append_left _ hmem, hlook⟩
    · refine .inr ⟨fun e he => ?_, hlook⟩
      rcases mem_append.mp he with he | he
      · exact hnone e he
      · cases mem_singleton.mp he
        exact hn rfl

/-- After the probes of a round the best answer is the least one, every member that answered has a
delay of this round recorded, and the others keep theirs. -/
theorem probeLoop_spec (outcomes : Outcomes) (before : Table Str UInt64) (names : List Str)
    (i : Nat) (delay : Table Str UInt64) (best : Option (Str × UInt64)) (seen : List (Str × UInt64))
    (hbest : IsBest best seen) (hrec : Records before delay seen) :
    IsBest (probeLoop outcomes i names delay best).2 (seen ++ answersFrom outcomes i names) ∧
      Records before (probeLoop outcomes i names delay best).1
        (seen ++ answersFrom outcomes i names) := by
  induction names generalizing i delay best seen with
  | nil =>
    rw [answersFrom, append_nil]
    exact ⟨hbest, hrec⟩
  | cons name rest ih =>
    rw [probeLoop, answersFrom]
    cases outcomes i with
    | none => exact ih (i + 1) delay best seen hbest hrec
    | some d =>
      have hgo := ih (i + 1) (delay.insert name d) _ (seen ++ [(name, d)])
        (hbest.snoc (name, d)) (hrec.snoc name d)
      rw [append_assoc] at hgo
      exact hgo

theorem saturatingAdd_le (a b : UInt64) : saturatingAdd a b ≤ a.toNat + b.toNat :=
  min_le_left _ _

theorem saturatingAdd_mono {a c : UInt64} (h : a ≤ c) (b : UInt64) :
    saturatingAdd a b ≤ saturatingAdd c b := by
  have hle : a.toNat ≤ c.toNat := h
  unfold saturatingAdd
  omega

/-- The delay compared with the best answer: one of this round when the selected member
answered, else the one recorded before. -/
theorem recorded_after {delay : Table Str UInt64} (hrec : Records p.delay delay seen) :
    (∃ name d, p.selection.lookup g.name = some name ∧ (name, d) ∈ seen ∧
      recorded g { p with delay := delay } = d.toNat) ∨
    (∀ name d, p.selection.lookup g.name = some name → (name, d) ∉ seen) ∧
      recorded g { p with delay := delay } = recorded g p := by
  unfold recorded
  cases hsel : p.selection.lookup g.name with
  | none => exact .inr ⟨nofun, by simp⟩
  | some name =>
    rcases hrec name with ⟨d, hmem, hlook⟩ | ⟨hnone, hlook⟩
    · exact .inl ⟨name, d, rfl, hmem, by simp [hlook]⟩
    · refine .inr ⟨fun n d hn => ?_, by simp [hlook]⟩
      cases hn
      exact hnone d

/-- **One round**: with at least one answer, the selection follows the measurements exactly
when it was movable. -/
theorem follows_round_iff (hans : answers g outcomes ≠ []) :
    Follows g (round g p outcomes) outcomes ↔ Movable g p outcomes := by
  obtain ⟨hbest, hrec⟩ := probeLoop_spec outcomes p.delay g.proxies 0 p.delay none [] rfl
    fun name => .inr ⟨nofun, rfl⟩
  unfold round settle
  generalize probeLoop outcomes 0 g.proxies p.delay none = result at hbest hrec
  obtain ⟨delay, best⟩ := result
  cases best with
  | none => exact absurd hbest hans
  | some b =>
    obtain ⟨target, d⟩ := b
    obtain ⟨hmem, hmin⟩ := hbest
    have hafter := recorded_after (g := g) hrec
    dsimp only at hafter hmin ⊢
    by_cases hmove : saturatingAdd d g.tolerance < recorded g { p with delay := delay }
    · -- the selection moves to the best answer
      rw [if_pos hmove]
      have hfollows : Follows g
          { p with delay := delay, selection := p.selection.insert g.name target } outcomes := by
        refine ⟨target, d, ?_, hmem, fun x hx => ?_⟩
        · show (p.selection.insert g.name target).lookup g.name = some target
          rw [Table.lookup_insert_if, if_pos rfl]
        · have hle : d.toNat ≤ x.2.toNat := hmin x hx
          omega
      refine ⟨fun _ => ?_, fun _ => hfollows⟩
      rcases hafter with ⟨name, e, hsel, he, -⟩ | ⟨-, hsame⟩
      · exact .inl ⟨name, e, hsel, he⟩
      · rw [hsame] at hmove
        exact .inr ⟨(target, d), hmem, hmove⟩
    · -- the selection stays
      rw [if_neg hmove]
      constructor
      · rintro ⟨name, e, hsel, he, -⟩
        exact .inl ⟨name, e, hsel, he⟩
      · intro hmovable
        rcases hafter with ⟨name, e, hsel, he, hrecorded⟩ | ⟨hsilent, hsame⟩
        · refine ⟨name, e, hsel, he, fun x hx => ?_⟩
          have hle : d.toNat ≤ x.2.toNat := hmin x hx
          have hsat := saturatingAdd_le d g.tolerance
          omega
        · -- silent and not beaten: not movable
          rcases hmovable with ⟨name, e, hsel, he⟩ | ⟨x, hx, hbeats⟩
          · exact absurd he (hsilent name e hsel)
          · have hle := saturatingAdd_mono (hmin x hx) g.tolerance
            omega

/-! ## Runs -/

/-- In every round with an answer, `P` holds of the policy before it and its outcomes. -/
def EveryRound (g : Group) (P : Policy → Outcomes → Prop) : Policy → List Outcomes → Prop
  | _, [] => True
  | p, outcomes :: rest =>
    (answers g outcomes ≠ [] → P p outcomes) ∧ EveryRound g P (round g p outcomes) rest

/-- **url-test groups follow live measurements exactly when they can move.** For every group,
every policy and every sequence of rounds: after every round with an answer the
selected member answered in it and is within the tolerance of the best, if and only
if before every such round the selected member answers in it or an answer beats its
recorded delay by more than the tolerance. -/
theorem url_test_follows_iff (g : Group) (p : Policy) (rounds : List Outcomes) :
    EveryRound g (fun p outcomes => Follows g (round g p outcomes) outcomes) p rounds ↔
      EveryRound g (fun p outcomes => Movable g p outcomes) p rounds := by
  induction rounds generalizing p with
  | nil => exact .rfl
  | cons outcomes rest ih =>
    refine and_congr (imp_congr_right fun hans => ?_) (ih _)
    exact follows_round_iff hans

/-- Members `A` and `B`, tolerance 50. -/
def twoMembers : Group := ⟨"auto", .urlTest, ["A", "B"], 50⟩

/-- The policy of a new core: the first member is selected. -/
def firstSelected : Policy :=
  ⟨.rule, [], [], (∅ : Table Str Str).insert "auto" "A", ∅⟩

/-- `A` answers in 20 ms and `B` in 200 ms. -/
def bothAnswer : Outcomes := fun i => if i = 0 then some 20 else some 200

/-- Only `B` answers. -/
def onlySecond : Outcomes := fun i => if i = 0 then none else some 200

/-- `A` stops answering; its delay from the first round keeps it selected. -/
theorem silent_member_stays_selected :
    answers twoMembers onlySecond ≠ [] ∧
      (round twoMembers (round twoMembers firstSelected bothAnswer) onlySecond).selection.lookup
        "auto".toList = some "A".toList ∧
      ¬Follows twoMembers
        (round twoMembers (round twoMembers firstSelected bothAnswer) onlySecond) onlySecond := by
  have hsel :
      (round twoMembers (round twoMembers firstSelected bothAnswer) onlySecond).selection.lookup
        "auto".toList = some "A".toList := by decide +kernel
  refine ⟨by decide, hsel, ?_⟩
  rintro ⟨name, d, hname, hmem, -⟩
  cases hname
  have hno : ∀ x ∈ answers twoMembers onlySecond, x.1 ≠ "A" := by decide
  exact hno _ hmem rfl

end ClashMeta
