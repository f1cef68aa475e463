import ClashMeta.Core.FakeSaved
import ClashMeta.Core.State

/-!
# Selections and the profile file

`save_profile` (profile.rs:42-62) and `select` with it (lib.rs:486-504). The selection is put
in before the profile is written, and stays when writing fails. Writing the file is the
environment's: `write` is what it returns for some contents.
-/

namespace ClashMeta

open Attempt

/-- The state with a member selected for a group. -/
def CoreState.choose (s : CoreState) (group name : Str) : CoreState :=
  s.withPolicy fun p => { p with selection := p.selection.insert group name }

/-- What the core has selected for a group. -/
def CoreState.selected (s : CoreState) (group : Str) : Option Str :=
  s.policy.selection.lookup group

namespace CoreState

variable (s : CoreState) (group name : Str)

@[simp] theorem selected_choose : (s.choose group name).selected group = some name :=
  AList.lookup_insert _

theorem selected_choose_of_ne {g : Str} (h : g ≠ group) :
    (s.choose group name).selected g = s.selected g :=
  AList.lookup_insert_ne h

end CoreState

namespace Core

/-- The contents that `save_profile` writes (profile.rs:46-57): each part only if it is
stored. -/
def profileContents (c : Config) (fake : FakeMap) (s : CoreState) : Saved where
  selection :=
    if c.profile.storeSelected then s.policy.selection.entries.map fun e => (e.1, e.2) else []
  fake := if c.profile.storeFakeIp then exportFake fake else []

variable (c : Config) (fake : FakeMap) (write : Saved → Except String Unit) (group name : Str)

/-- `Core::save_profile`. -/
def saveProfile : Call Unit :=
  if c.profile.storeSelected = false ∧ c.profile.storeFakeIp = false then pure ()
  else do
    let saved ← Attempt.read (profileContents c fake)
    Attempt.lift (write saved)

/-- `Core::select` with its call of `save_profile`. -/
def selectAndSave : Call Unit :=
  match c.core.proxyGroups.find? fun g => g.name = group with
  | none => Attempt.lift (.error "group not found")
  | some g => do
    Attempt.lift (ensure (name ∈ g.proxies) "node not in group")
    Attempt.write fun s => s.choose group name
    saveProfile c fake write

/-! ## The ways a call goes -/

/-- The profile can be saved in this state: nothing is stored, or the file can be written. -/
def Saves (s : CoreState) : Prop :=
  (c.profile.storeSelected = false ∧ c.profile.storeFakeIp = false) ∨
    write (profileContents c fake s) = .ok ()

/-- The group has this member. -/
def HasMember : Prop :=
  ∃ g, (c.core.proxyGroups.find? fun g => g.name = group) = some g ∧ name ∈ g.proxies

theorem exec_saveProfile (s : CoreState) :
    (Saves c fake write s ∧ (saveProfile c fake write).exec s = (.ok (), s)) ∨
      ¬ Saves c fake write s ∧ ∃ e, (saveProfile c fake write).exec s = (.error e, s) := by
  unfold saveProfile Saves
  split
  · rename_i hoff
    exact .inl ⟨.inl hoff, rfl⟩
  · rename_i hon
    rw [exec_bind, exec_read]
    dsimp only
    cases hwrite : write (profileContents c fake s) with
    | ok _ => exact .inl ⟨.inr rfl, rfl⟩
    | error e =>
      refine .inr ⟨?_, e, rfl⟩
      rintro (hoff | hok)
      · exact hon hoff
      · cases hok

/-- The three ways a call goes: refused with nothing changed, selected and saved, or selected
and not saved. -/
theorem selectAndSave_cases (s : CoreState) :
    (¬ HasMember c group name ∧
        ∃ e, (selectAndSave c fake write group name).exec s = (.error e, s)) ∨
    (HasMember c group name ∧ Saves c fake write (s.choose group name) ∧
        (selectAndSave c fake write group name).exec s = (.ok (), s.choose group name)) ∨
    (HasMember c group name ∧ ¬ Saves c fake write (s.choose group name) ∧
        ∃ e, (selectAndSave c fake write group name).exec s =
          (.error e, s.choose group name)) := by
  unfold selectAndSave HasMember
  cases hfind : c.core.proxyGroups.find? fun g => g.name = group with
  | none =>
    refine .inl ⟨?_, _, rfl⟩
    rintro ⟨g, hg, -⟩
    cases hg
  | some g =>
    by_cases hmem : name ∈ g.proxies
    · have hhas : ∃ g', some g = some g' ∧ name ∈ g'.proxies := ⟨g, rfl, hmem⟩
      have hrun : (do
          Attempt.lift (ensure (name ∈ g.proxies) "node not in group")
          Attempt.write fun s => s.choose group name
          saveProfile c fake write : Call Unit).exec s =
            (saveProfile c fake write).exec (s.choose group name) := by
        rw [exec_bind, ensure, if_pos hmem]
        rfl
      rcases exec_saveProfile c fake write (s.choose group name) with ⟨hs, he⟩ | ⟨hs, e, he⟩
      · exact .inr (.inl ⟨hhas, hs, hrun.trans he⟩)
      · exact .inr (.inr ⟨hhas, hs, e, hrun.trans he⟩)
    · refine .inl ⟨?_, "node not in group", ?_⟩
      · rintro ⟨g', hg', hm⟩
        cases hg'
        exact hmem hm
      · rw [exec_bind, exec_lift, ensure, if_neg hmem]

theorem exec_selectAndSave (s : CoreState) :
    (selectAndSave c fake write group name).exec s =
      (select c.core group name
        ((saveProfile c fake write).exec (s.choose group name)).1).exec s := by
  unfold selectAndSave select
  cases c.core.proxyGroups.find? fun g => g.name = group with
  | none => rfl
  | some g =>
    rw [exec_bind, exec_bind]
    cases ensure (name ∈ g.proxies) "node not in group" with
    | error e => rfl
    | ok _ =>
      rcases exec_saveProfile c fake write (s.choose group name) with ⟨-, he⟩ | ⟨-, e, he⟩
      · rw [he]; exact he
      · rw [he]; exact he

/-! ## Failed selections -/

/-- What a call promises: with an error every selection is as before, and otherwise exactly
the group's one has become the member. -/
def Exactly (s : CoreState) : Except String Unit × CoreState → Prop
  | (.error _, t) => ∀ g, t.selected g = s.selected g
  | (.ok _, t) => t.selected group = some name ∧ ∀ g, g ≠ group → t.selected g = s.selected g

theorem exactly_choose (s : CoreState) : Exactly group name s (.ok (), s.choose group name) :=
  ⟨s.selected_choose group name, fun _ h => s.selected_choose_of_ne group name h⟩

theorem exactly_error_choose_iff (s : CoreState) (e : String) :
    Exactly group name s (.error e, s.choose group name) ↔ s.selected group = some name := by
  constructor
  · intro h
    rw [← h group, CoreState.selected_choose]
  · intro h g
    by_cases hg : g = group
    · rw [hg, CoreState.selected_choose, h]
    · exact s.selected_choose_of_ne group name hg

/-- **Failed selections.** For every configuration, fake-IP map, file system, state, group and
name: an error leaves every selection as it was, and success changes exactly this one,
if and only if the group does not have the member, or has it selected already, or the
profile with the new selection can be saved. -/
theorem failed_selection_kept_iff (s : CoreState) :
    Exactly group name s ((selectAndSave c fake write group name).exec s) ↔
      ¬ HasMember c group name ∨ s.selected group = some name ∨
        Saves c fake write (s.choose group name) := by
  rcases selectAndSave_cases c fake write group name s with
    ⟨hno, e, he⟩ | ⟨-, hsaves, he⟩ | ⟨hhas, hfails, e, he⟩
  · rw [he]
    exact iff_of_true (fun _ => rfl) (.inl hno)
  · rw [he]
    exact iff_of_true (exactly_choose group name s) (.inr (.inr hsaves))
  · rw [he, exactly_error_choose_iff]
    constructor
    · exact fun h => .inr (.inl h)
    · rintro (hno | h | hsaves)
      · exact absurd hhas hno
      · exact h
      · exact absurd hsaves hfails

section

/-- A group of two members, with selections stored. -/
def storedGroup : Config :=
  { proxyGroups := [
      { name := "exit", kind := .select, proxies := ["DIRECT", "REJECT"] }]
    rules := ["MATCH,exit"]
    profile := { storeSelected := true } }

/-- No text is known to the external parsers. -/
local instance : ConfigText := .none

/-- On a full disk the call of a core that has just been made returns an error, and the second
member is selected from then on. -/
theorem unsaved_selection_stays :
    ∃ s, Core.new storedGroup = .ok s ∧ s.selected "exit" = some "DIRECT".toList ∧
      ∃ t, (selectAndSave storedGroup .new (fun _ => .error "no space left on device")
          "exit" "REJECT").exec s = (.error "no space left on device", t) ∧
        t.selected "exit" = some "REJECT".toList :=
  ⟨_, rfl, rfl, _, rfl, rfl⟩

end

end Core

end ClashMeta
