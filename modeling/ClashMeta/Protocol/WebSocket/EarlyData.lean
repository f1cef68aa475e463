import Mathlib.Algebra.Order.BigOperators.Group.List
import ClashMeta.Text

/-!
# The early-data option in a path (protocol/src/websocket.rs:19-36)

`split_ed` looks through the query of the configured path for `ed=N`. The last number found
becomes the maximum of early data, and the header becomes `Sec-WebSocket-Protocol`. When the
number is not the configured maximum the whole query goes; when it is the path stays as it is.

`uniform` says what the option is for: the pairs it stands in are taken out of the path and the
others are kept. `splitEd_uniform_iff` compares the two.
-/

namespace ClashMeta.WebSocket

open List Option

/-- `pair.strip_prefix("ed=")` with `value.parse::<usize>()` (of 64 bits), where both succeed. -/
def edValue (pair : Str) : Option Nat :=
  (stripStart "ed=" pair).bind fun value => (parseUint (2 ^ 64) value).toOption

/-- The header that carries early data. -/
def edHeader : Str := "Sec-WebSocket-Protocol"

/-- The loop over the pairs of the query. -/
def edLoop : List Str → Nat × Str → Nat × Str
  | [], found => found
  | pair :: pairs, found =>
    match edValue pair with
    | some parsed => edLoop pairs (parsed, edHeader)
    | none => edLoop pairs found

/-- `split_ed`. -/
def splitEd (path : Str) (configured : Nat) (header : Str) : Str × Nat × Str :=
  match splitOnce '?' path with
  | some (base, query) =>
    let (max, name) := edLoop (query.splitOn '&') (configured, header)
    if max ≠ configured then (base, max, name) else (path, max, name)
  | none => (path, configured, header)

/-! ## What the option is for -/

/-- The `ed` pairs: with `all`, every pair of that name; without, those with a number. -/
def edPair (all : Bool) (pair : Str) : Bool :=
  "ed=".toList.isPrefixOf pair && (all || (edValue pair).isSome)

/-- A path with these pairs as its query. -/
def withQuery (base : Str) (pairs : List Str) : Str :=
  if pairs = [] then base else base ++ '?' :: ['&'].intercalate pairs

/-- The last number that the pairs give. -/
def lastEd (pairs : List Str) : Option Nat := (pairs.filterMap edValue).getLast?

/-- The option taken out of the path, whatever is configured. -/
def uniform (all : Bool) (path : Str) (configured : Nat) (header : Str) : Str × Nat × Str :=
  match splitOnce '?' path with
  | none => (path, configured, header)
  | some (base, query) =>
    match lastEd (query.splitOn '&') with
    | none => (path, configured, header)
    | some n => (withQuery base ((query.splitOn '&').filter (!edPair all ·)), n, edHeader)

/-- A number in the query is not the configured one, and nothing but `ed` pairs stands there. -/
def Alone (all : Bool) (path : Str) (configured : Nat) : Prop :=
  ∀ base query n, splitOnce '?' path = some (base, query) →
    lastEd (query.splitOn '&') = some n →
      n ≠ configured ∧ ∀ pair ∈ query.splitOn '&', edPair all pair = true

/-! ## The loop -/

theorem edLoop_eq (pairs : List Str) (found : Nat × Str) :
    edLoop pairs found = ((lastEd pairs).map (·, edHeader)).getD found := by
  induction pairs generalizing found with
  | nil => rfl
  | cons pair pairs ih =>
    rw [edLoop, lastEd, filterMap_cons]
    cases edValue pair with
    | none => exact ih found
    | some n =>
      dsimp only
      rw [ih, getLast?_cons]
      cases hlast : (pairs.filterMap edValue).getLast? with
      | none | some m => simp [lastEd, hlast]

theorem edPair_of_edValue (all : Bool) {pair : Str} (h : (edValue pair).isSome) :
    edPair all pair = true := by
  have hstart : "ed=".toList.isPrefixOf pair = true := by
    by_contra hnot
    rw [edValue, stripStart, if_neg hnot] at h
    cases h
  rw [edPair, hstart, h, Bool.or_true]
  rfl

theorem exists_edPair (all : Bool) {pairs : List Str} {n : Nat} (h : lastEd pairs = some n) :
    ∃ pair ∈ pairs, edPair all pair = true := by
  obtain ⟨pair, hmem, hvalue⟩ := mem_filterMap.mp (mem_of_getLast? h)
  exact ⟨pair, hmem, edPair_of_edValue all (isSome_of_eq_some hvalue)⟩

/-! ## Paths and queries -/

theorem eq_of_splitOnce {sep : Char} {s front rest : Str}
    (h : splitOnce sep s = some (front, rest)) : s = front ++ sep :: rest := by
  have hsplit := takeWhile_append_dropWhile (p := fun c => decide (c ≠ sep)) (l := s)
  unfold splitOnce at h
  split at h
  · cases h
  · rename_i c tail hdrop
    cases h
    have hstop : c = sep := by
      have hhead := head?_dropWhile_not (fun c => decide (c ≠ sep)) s
      rw [hdrop] at hhead
      simpa using hhead
    rw [hdrop, hstop] at hsplit
    exact hsplit.symm

theorem length_intercalate {pairs : List Str} (h : pairs ≠ []) :
    (['&'].intercalate pairs).length + 1 = (pairs.map List.length).sum + pairs.length := by
  induction pairs with
  | nil => exact absurd rfl h
  | cons pair pairs ih =>
    cases pairs with
    | nil => simp [intercalate]
    | cons next pairs =>
      have hrest := ih (cons_ne_nil _ _)
      rw [intercalate_cons_cons, map_cons, sum_cons]
      simp only [length_append, length_cons, length_nil] at hrest ⊢
      omega

theorem withQuery_filter_ne (base query : Str) {keep : Str → Bool}
    (h : ∃ p ∈ query.splitOn '&', keep p = false) :
    withQuery base ((query.splitOn '&').filter keep) ≠ base ++ '?' :: query := by
  intro heq
  have hlength := congrArg List.length heq
  rw [withQuery, length_append, length_cons] at hlength
  split at hlength
  · omega
  · rename_i hne
    have hshort := length_intercalate hne
    have hall := length_intercalate (splitOn_ne_nil '&' query)
    rw [intercalate_splitOn] at hall
    have hfewer := length_filter_lt_length_iff_exists.mpr (by simpa using h)
    have hsum : (((query.splitOn '&').filter keep).map List.length).sum ≤
        ((query.splitOn '&').map List.length).sum :=
      (filter_sublist.map _).sum_le_sum fun _ _ => Nat.zero_le _
    rw [length_append, length_cons] at hlength
    omega

theorem withQuery_eq_base_iff (base : Str) (pairs : List Str) :
    withQuery base pairs = base ↔ pairs = [] := by
  rw [withQuery]
  constructor
  · intro h
    by_contra hne
    rw [if_neg hne] at h
    have hlength := congrArg List.length h
    rw [length_append, length_cons] at hlength
    omega
  · intro h
    rw [if_pos h]

/-! ## The comparison -/

/-- **The option is taken out of the path exactly when it stands alone there** and does not
repeat the configured maximum; the maximum and the header are as they should be in any case. -/
theorem splitEd_uniform_iff (all : Bool) (path : Str) (configured : Nat) (header : Str) :
    (splitEd path configured header = uniform all path configured header ↔
      Alone all path configured) ∧
    (splitEd path configured header).2 = (uniform all path configured header).2 := by
  rw [splitEd, uniform, Alone]
  cases hsplit : splitOnce '?' path with
  | none => exact ⟨⟨fun _ => nofun, fun _ => rfl⟩, rfl⟩
  | some parts =>
    obtain ⟨base, query⟩ := parts
    dsimp only
    rw [edLoop_eq]
    cases hlast : lastEd (query.splitOn '&') with
    | none =>
      refine ⟨⟨fun _ base' query' n h hn => ?_, fun _ => ?_⟩, ?_⟩
      · cases h
        rw [hlast] at hn
        cases hn
      · exact if_neg (not_not.mpr rfl)
      · exact congrArg Prod.snd (if_neg (not_not.mpr rfl))
    | some n =>
      have hkept : (query.splitOn '&').filter (!edPair all ·) = [] ↔
          ∀ pair ∈ query.splitOn '&', edPair all pair = true := by
        simp [filter_eq_nil_iff]
      dsimp only [map_some, getD_some]
      by_cases hsame : n = configured
      · -- the number is the configured one, and the path stays
        rw [if_neg (not_not.mpr hsame)]
        refine ⟨⟨fun h => ?_, fun h => absurd hsame (h base query n rfl hlast).1⟩, rfl⟩
        have hgone : ∃ p ∈ query.splitOn '&', (!edPair all p) = false := by
          simpa using exists_edPair all hlast
        refine absurd ?_ (withQuery_filter_ne base query hgone)
        rw [← eq_of_splitOnce hsplit]
        exact (Prod.mk.inj h).1.symm
      · -- it is another one, and all pairs go
        rw [if_pos hsame]
        refine ⟨⟨fun h base' query' n' hparts hn' => ?_, fun h => ?_⟩, rfl⟩
        · cases hparts
          rw [hlast] at hn'
          cases hn'
          exact ⟨hsame, hkept.mp ((withQuery_eq_base_iff _ _).mp (Prod.mk.inj h).1.symm)⟩
        · rw [(withQuery_eq_base_iff _ _).mpr (hkept.mpr (h base query n rfl hlast).2)]

/-- The other parameter of a query is lost with the option, and an option that repeats the
configured maximum stays in the path. -/
theorem splitEd_loses_parameters :
    (splitEd "/ws?ed=2048&token=x".toList 0 [] = ("/ws".toList, 2048, edHeader) ∧
      uniform true "/ws?ed=2048&token=x" 0 [] =
        ("/ws?token=x".toList, 2048, edHeader)) ∧
    splitEd "/ws?ed=2048".toList 2048 [] = ("/ws?ed=2048".toList, 2048, edHeader) ∧
      uniform true "/ws?ed=2048".toList 2048 [] = ("/ws".toList, 2048, edHeader) := by
  decide +kernel

end ClashMeta.WebSocket
