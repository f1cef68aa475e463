import ClashMeta.AddressText

/-!
# Printed addresses are read back

The standard library's printer (`Display` for `Ipv6Addr`: an embedded IPv4 address, or the
first longest run of zero groups as `::`) against its parser.
-/

namespace ClashMeta

open List Numeral Option

/-- What the textual form of addresses is relied on for: a printed address is parsed to itself,
and is a short text without control characters and blanks. -/
structure IpText.Lawful [IpText] : Prop where
  inverse : IpText.Inverse
  print_ne_nil : ∀ ip, IpText.print ip ≠ []
  print_short : ∀ ip, utf8Len (IpText.print ip) ≤ 253
  print_clean : ∀ ip, ∀ c ∈ IpText.print ip, isControl c = false ∧ isWhitespace c = false

namespace AddressText

/-! ## Groups in front of other text -/

/-- Text that no further group stands in front of. -/
structure Ends (t : Str) : Prop where
  stops : Numeral.Stops 16 t
  nodot : '.' ∉ t
  second : ∀ u, given ':' t = some u → Numeral.Stops 16 u

theorem ends_nil : Ends [] :=
  ⟨stops_nil 16, not_mem_nil, fun u h => (by cases h)⟩

variable {s t : Str}

theorem readGroup_of_stops (h : Stops 16 s) : readGroup s = none :=
  read_of_stops _ _ _ h

theorem readGroups_of_ends (left : Nat) (first : Bool) (h : Ends t) :
    readGroups left first t = ([], false, t) := by
  cases left with
  | zero => rfl
  | succ left =>
    have hnone : ∀ u, separator first t = some u → readIpv4 u = none ∧ readGroup u = none := by
      intro u hu
      cases first with
      | true =>
        cases hu
        exact ⟨readIpv4_eq_none h.nodot, readGroup_of_stops h.stops⟩
      | false =>
        refine ⟨readIpv4_eq_none fun hdot => h.nodot ?_, readGroup_of_stops (h.second u hu)⟩
        rw [given_eq_some.mp hu]
        exact mem_cons_of_mem ':' hdot
    rw [readGroups]
    cases hsep : separator first t with
    | none => rw [bind_none, bind_none, ite_self]
    | some u =>
      rw [bind_some, bind_some, (hnone u hsep).1, (hnone u hsep).2, ite_self]

variable {radix : Nat}

theorem stops_append (hs : Stops radix s) (ht : Stops radix t) : Stops radix (s ++ t) := by
  cases s with
  | nil => exact ht
  | cons c s => exact fun d hd => hs d hd

variable {groups : List Nat}

theorem readGroups_printRest_append (h : ∀ g ∈ groups, g < 65536) (more : Nat) (ht : Ends t) :
    readGroups (groups.length + more) false (printRest groups ++ t) = (groups, false, t) := by
  induction groups with
  | nil =>
    rw [length_nil, zero_add]
    exact readGroups_of_ends more false ht
  | cons g groups ih =>
    rw [forall_mem_cons] at h
    have hdot : '.' ∉ Nat.toDigits 16 g ++ (printRest groups ++ t) := by
      rw [← append_assoc, ← printGroups_cons, mem_append, not_or]
      exact ⟨notMem_printGroups _ (by decide) (by decide), ht.nodot⟩
    have hseparator : separator false (printRest (g :: groups) ++ t) =
        some (Nat.toDigits 16 g ++ (printRest groups ++ t)) := by
      rw [← append_assoc]
      exact given_cons ':' _
    rw [length_cons, Nat.succ_add, readGroups_succ hseparator hdot
      (readGroup_toDigits h.1 (stops_append (stops_printRest groups) ht.stops)), ih h.2]

/-- **Printed groups are read back**, up to where they end. -/
theorem readGroups_printGroups_append (h : ∀ g ∈ groups, g < 65536) (more : Nat) (ht : Ends t) :
    readGroups (groups.length + more) true (printGroups groups ++ t) = (groups, false, t) := by
  cases groups with
  | nil =>
    rw [length_nil, zero_add]
    exact readGroups_of_ends more true ht
  | cons g groups =>
    rw [forall_mem_cons] at h
    rw [printGroups_cons, append_assoc]
    have hdot : '.' ∉ Nat.toDigits 16 g ++ (printRest groups ++ t) := by
      rw [← append_assoc, ← printGroups_cons, mem_append, not_or]
      exact ⟨notMem_printGroups _ (by decide) (by decide), ht.nodot⟩
    rw [length_cons, Nat.succ_add, readGroups_succ rfl hdot
      (readGroup_toDigits h.1 (stops_append (stops_printRest groups) ht.stops)),
      readGroups_printRest_append h.2 more ht]

/-! ## The run of zeros -/

/-- The groups have that many zeros from that place on. -/
def ZerosAt (groups : List Nat) (run : Nat × Nat) : Prop :=
  ∃ front back, groups = front ++ List.replicate run.2 0 ++ back ∧ front.length = run.1

/-- The search, by induction on the groups ahead: the best run lies in the groups behind, and
the present one ends them. -/
theorem longestZeros_zerosAt {behind groups : List Nat} {best run : Nat × Nat}
    (hbest : best.2 = 0 ∨ ZerosAt behind best)
    (hrun : run.2 = 0 ∨ ∃ front, behind = front ++ replicate run.2 0 ∧ front.length = run.1) :
    (longestZeros behind.length best run groups).2 = 0 ∨
      ZerosAt (behind ++ groups) (longestZeros behind.length best run groups) := by
  induction groups generalizing behind best run with
  | nil =>
    rw [append_nil]
    exact hbest
  | cons g groups ih =>
    have hlength : behind.length + 1 = (behind ++ [g]).length := by simp
    have hkept : best.2 = 0 ∨ ZerosAt (behind ++ [g]) best := by
      refine hbest.imp id fun ⟨front, back, heq, hlen⟩ => ⟨front, back ++ [g], ?_, hlen⟩
      rw [heq, append_assoc]
    have happend : behind ++ g :: groups = behind ++ [g] ++ groups := append_cons _ _ _
    rw [longestZeros, hlength, happend]
    split
    · rename_i hzero
      subst hzero
      -- the zero makes the present run longer, or starts one
      obtain ⟨next, hnext, hends⟩ : ∃ next : Nat × Nat,
          (if run.2 = 0 then (behind.length, 1) else (run.1, run.2 + 1)) = next ∧
            ∃ front, behind ++ [0] = front ++ replicate next.2 0 ∧ front.length = next.1 := by
        refine ⟨_, rfl, ?_⟩
        split
        · exact ⟨behind, rfl, rfl⟩
        · rename_i hne
          obtain ⟨front, heq, hlen⟩ := hrun.resolve_left hne
          refine ⟨front, ?_, hlen⟩
          rw [heq, append_assoc, ← replicate_succ']
      simp only [hnext]
      refine ih ?_ (.inr hends)
      split
      · obtain ⟨front, heq, hlen⟩ := hends
        exact .inr ⟨front, [], by rw [append_nil, heq], hlen⟩
      · exact hkept
    · refine ih hkept ?_
      exact .inl rfl

/-- The run that the printer leaves out consists of zeros. -/
theorem longestZeros_spec (h : (longestZeros 0 (0, 0) (0, 0) groups).2 ≠ 0) :
    ZerosAt groups (longestZeros 0 (0, 0) (0, 0) groups) :=
  (@longestZeros_zerosAt [] groups (0, 0) (0, 0) (.inl rfl) (.inl rfl)).resolve_left h

/-! ## IPv6 addresses -/

theorem ofGroups_expand (a : BitVec 128) : ofGroups (Numeral.expand 65536 8 a.toNat) = a := by
  have hpow : 65536 ^ 8 = 2 ^ 128 := by decide
  have hvalue := value_expand 65536 8 a.toNat
  refine BitVec.eq_of_toNat_eq ?_
  rw [ofGroups, hvalue, hpow, BitVec.toNat_ofNat, Nat.mod_mod]
  exact Nat.mod_eq_of_lt a.isLt

theorem readIpv6_printGroups (hlength : groups.length = 8) (h : ∀ g ∈ groups, g < 65536) :
    readIpv6 (printGroups groups) = some (ofGroups groups, []) := by
  have hread := readGroups_printGroups_append h 0 ends_nil
  rw [hlength, append_nil] at hread
  rw [readIpv6, hread]
  exact if_pos hlength

theorem readIpv6_zeros {front back : List Nat} {n : Nat} (hn : 1 < n)
    (hlength : front.length + n + back.length = 8) (hfront : ∀ g ∈ front, g < 65536)
    (hback : ∀ g ∈ back, g < 65536) :
    readIpv6 (printGroups front ++ "::" ++ printGroups back) =
      some (ofGroups (front ++ replicate n 0 ++ back), []) := by
  have hends : Ends ("::" ++ printGroups back) := by
    refine ⟨stops_cons (by decide), ?_, fun u hu => ?_⟩
    · rw [mem_append, not_or]
      exact ⟨by decide, notMem_printGroups back (by decide) (by decide)⟩
    · cases given_eq_some.mp hu
      exact stops_cons (by decide)
  have hhead := readGroups_printGroups_append hfront (n + back.length) hends
  rw [← add_assoc, hlength, ← append_assoc] at hhead
  have htail := readGroups_printGroups_append hback (n - 1) ends_nil
  have hleft : back.length + (n - 1) = 7 - front.length := by omega
  rw [hleft, append_nil] at htail
  have hzeros : 8 - front.length - back.length = n := by omega
  rw [readIpv6, hhead]
  dsimp only
  rw [if_neg (by omega), if_neg Bool.false_ne_true]
  show Option.map _ ((given ':' (':' :: ':' :: printGroups back)).bind (given ':')) = _
  rw [given_cons, bind_some, given_cons, map_some, htail, hzeros]

theorem readGroups_true_eq_nil (left : Nat) (hv4 : readIpv4 s = none)
    (hgroup : readGroup s = none) : readGroups (left + 1) true s = ([], false, s) := by
  rw [readGroups, show separator true s = some s from rfl, bind_some, bind_some, hv4,
    hgroup, ite_self]

theorem readIpv6_mapped (b : BitVec 32) :
    readIpv6 ("::ffff:" ++ printIpv4 b) =
      some (ofGroups [0, 0, 0, 0, 0, 0xffff, b.toNat / 65536, b.toNat % 65536], []) := by
  have hhead : readGroups 8 true ("::ffff:" ++ printIpv4 b) =
      ([], false, "::ffff:" ++ printIpv4 b) :=
    readGroups_true_eq_nil 7 (readIpv4_colon _)
      (readGroup_of_stops (stops_cons (by decide)))
  have hv4 : readIpv4 (printIpv4 b) = some (b, []) := by
    have hread := readIpv4_printIpv4 b (stops_nil 10)
    rwa [append_nil] at hread
  -- two places are left for the dotted part, behind one group
  have hlast : readGroups 6 false (':' :: printIpv4 b) =
      ([b.toNat / 65536, b.toNat % 65536], true, []) := by
    rw [readGroups, show separator false (':' :: printIpv4 b) = some (printIpv4 b) from
      given_cons ':' _, bind_some, hv4, if_pos (by decide)]
  have hffff : readGroup ("ffff" ++ ':' :: printIpv4 b) =
      some (0xffff, ':' :: printIpv4 b) :=
    readGroup_toDigits (g := 0xffff) (by decide) (stops_cons (by decide))
  have hnone : readIpv4 ("ffff" ++ ':' :: printIpv4 b) = none := by
    rfl
  have htail : readGroups 7 true ("ffff" ++ ':' :: printIpv4 b) =
      ([0xffff, b.toNat / 65536, b.toNat % 65536], true, []) := by
    rw [readGroups, show separator true ("ffff" ++ ':' :: printIpv4 b) =
      some ("ffff" ++ ':' :: printIpv4 b) from rfl, bind_some, bind_some,
      hnone, ite_self, hffff]
    dsimp only
    rw [hlast]
  rw [readIpv6, hhead]
  dsimp only
  rw [if_neg (by decide), if_neg Bool.false_ne_true]
  show Option.map _ ((given ':' (':' :: ':' :: ("ffff" ++ ':' :: printIpv4 b))).bind
    (given ':')) = _
  rw [given_cons, bind_some, given_cons, map_some, length_nil, htail]
  refine congrArg some (Prod.ext (congrArg ofGroups ?_) rfl)
  rfl

theorem expand_mapped {a : BitVec 128}
    (h : (Numeral.expand 65536 8 a.toNat).take 6 = [0, 0, 0, 0, 0, 0xffff]) :
    Numeral.expand 65536 8 a.toNat = [0, 0, 0, 0, 0, 0xffff, (a.setWidth 32).toNat / 65536,
      (a.setWidth 32).toNat % 65536] := by
  have hdrop : (Numeral.expand 65536 8 a.toNat).drop 6 =
      [a.toNat / 65536 % 65536, a.toNat % 65536] := by
    simp [Numeral.expand]
  rw [← take_append_drop 6 (Numeral.expand 65536 8 a.toNat), h, hdrop]
  have hhigh : a.toNat / 65536 % 65536 = a.toNat % 2 ^ 32 / 65536 := by omega
  have hlow : a.toNat % 65536 = a.toNat % 2 ^ 32 % 65536 := by omega
  rw [hhigh, hlow]
  rfl

/-- **A printed IPv6 address is read back.** -/
theorem readIpv6_printIpv6 (a : BitVec 128) : readIpv6 (printIpv6 a) = some (a, []) := by
  have hlength := length_expand 65536 8 a.toNat
  have hlt : ∀ g ∈ Numeral.expand 65536 8 a.toNat, g < 65536 :=
    fun g hg => lt_of_mem_expand (by decide) hg
  unfold printIpv6
  dsimp only
  split
  · rename_i hmapped
    rw [readIpv6_mapped, ← expand_mapped hmapped, ofGroups_expand]
  split
  · rename_i hone
    obtain ⟨front, back, heq, hfront⟩ := longestZeros_spec (ne_of_gt (Nat.lt_of_succ_lt hone))
    generalize longestZeros 0 (0, 0) (0, 0) (Numeral.expand 65536 8 a.toNat) = run at *
    have htake : (Numeral.expand 65536 8 a.toNat).take run.1 = front := by
      rw [heq, append_assoc, ← hfront, take_left]
    have hdrop : (Numeral.expand 65536 8 a.toNat).drop (run.1 + run.2) = back := by
      rw [heq, ← hfront]
      exact drop_left' (by simp)
    rw [htake, hdrop]
    rw [heq] at hlength hlt
    simp only [length_append, length_replicate] at hlength
    rw [readIpv6_zeros hone hlength (fun g hg => hlt g (by simp [hg]))
      (fun g hg => hlt g (by simp [hg])), ← heq, ofGroups_expand]
  · rw [readIpv6_printGroups hlength hlt, ofGroups_expand]

/-- **Every printed address is parsed to itself.** -/
theorem parseIp_printIp (ip : IpAddr) : parseIp (printIp ip) = some ip := by
  cases ip with
  | v4 a =>
    have hread := readIpv4_printIpv4 a (stops_nil 10)
    rw [append_nil] at hread
    show parseIp (printIpv4 a) = _
    rw [parseIp, hread]
    rfl
  | v6 a =>
    have hnone : readIpv4 (printIpv6 a) = none := by
      rcases printIpv6_cases a with ⟨b, hmapped⟩ | hdigits
      · rw [hmapped]
        exact readIpv4_colon _
      · exact readIpv4_eq_none (hdigits '.' (by decide) (by decide))
    show parseIp (printIpv6 a) = _
    rw [parseIp, hnone, readIpv6_printIpv6]
    rfl

/-! ## The characters of printed addresses -/

/-- The characters between the dot and the small letters, which addresses are printed in. -/
def Printed (s : Str) : Prop := ∀ c ∈ s, 46 ≤ c.toNat ∧ c.toNat ≤ 122

theorem printed_of_all (h : (s.all fun c => 46 ≤ c.toNat && c.toNat ≤ 122)) : Printed s := by
  intro c hc
  have hboth := all_eq_true.mp h c hc
  rw [Bool.and_eq_true, decide_eq_true_iff, decide_eq_true_iff] at hboth
  exact hboth

theorem printed_append (hs : Printed s) (ht : Printed t) : Printed (s ++ t) :=
  forall_mem_append.mpr ⟨hs, ht⟩

theorem printed_cons {c : Char} (hc : 46 ≤ c.toNat ∧ c.toNat ≤ 122) (hs : Printed s) :
    Printed (c :: s) := forall_mem_cons.mpr ⟨hc, hs⟩

theorem toNat_of_digit? {c : Char} (h : (Numeral.digit? radix c).isSome) :
    46 ≤ c.toNat ∧ c.toNat ≤ 122 := by
  unfold Numeral.digit? at h
  split at h
  · rename_i hc
    have hlow : 48 ≤ c.toNat := hc.1
    have hhigh : c.toNat ≤ 57 := hc.2
    omega
  split at h
  · rename_i hc
    have hlow : 97 ≤ c.toNat := hc.1
    have hhigh : c.toNat ≤ 122 := hc.2
    omega
  split at h
  · rename_i hc
    have hlow : 65 ≤ c.toNat := hc.1
    have hhigh : c.toNat ≤ 90 := hc.2
    omega
  · cases h

theorem printed_toDigits (hradix : 1 < radix) (h16 : radix ≤ 16) (n : Nat) :
    Printed (Nat.toDigits radix n) :=
  fun c hc => toNat_of_digit? ((toDigits_digits hradix h16 n).1 c hc)

theorem printed_printIpv4 (a : BitVec 32) : Printed (printIpv4 a) ∧ (printIpv4 a).length ≤ 15 ∧
    printIpv4 a ≠ [] := by
  obtain ⟨w, x, y, z, hw, hx, hy, hz, -, hprint⟩ := printIpv4_eq a
  have hdigits : ∀ n, Printed (Nat.toDigits 10 n) := printed_toDigits (by decide) (by decide)
  have hdot : 46 ≤ '.'.toNat ∧ '.'.toNat ≤ 122 := by decide
  have hthree : ∀ n, n < 256 → (Nat.toDigits 10 n).length ≤ 3 := fun n hn =>
    (Nat.length_toDigits_le_iff (by decide) (by decide)).mpr (by omega)
  rw [hprint]
  refine ⟨printed_append (hdigits w) (printed_cons hdot (printed_append (hdigits x)
    (printed_cons hdot (printed_append (hdigits y) (printed_cons hdot (hdigits z)))))), ?_,
    by simp⟩
  have hw := hthree w hw
  have hx := hthree x hx
  have hy := hthree y hy
  have hz := hthree z hz
  simp only [length_append, length_cons]
  omega

theorem printed_printGroups (h : ∀ g ∈ groups, g < 65536) :
    Printed (printGroups groups) ∧ (printGroups groups).length ≤ 5 * groups.length := by
  have hdigits : ∀ n, Printed (Nat.toDigits 16 n) := printed_toDigits (by decide) (by decide)
  have hfour : ∀ n, n < 65536 → (Nat.toDigits 16 n).length ≤ 4 := fun n hn =>
    (Nat.length_toDigits_le_iff (by decide) (by decide)).mpr (by omega)
  have hrest : ∀ rest : List Nat, (∀ g ∈ rest, g < 65536) →
      Printed (printRest rest) ∧ (printRest rest).length ≤ 5 * rest.length := by
    intro rest hlt
    induction rest with
    | nil => exact ⟨fun c hc => (by cases hc), le_rfl⟩
    | cons g rest ih =>
      obtain ⟨hg, hlt⟩ := forall_mem_cons.mp hlt
      obtain ⟨hprinted, hlength⟩ := ih hlt
      refine ⟨printed_cons (by decide) (printed_append (hdigits g) hprinted), ?_⟩
      have hg := hfour g hg
      show (':' :: Nat.toDigits 16 g ++ printRest rest).length ≤ _
      simp only [length_append, length_cons]
      omega
  cases groups with
  | nil => exact ⟨fun c hc => (by cases hc), le_rfl⟩
  | cons g groups =>
    obtain ⟨hg, hlt⟩ := forall_mem_cons.mp h
    obtain ⟨hprinted, hlength⟩ := hrest groups hlt
    have hg := hfour g hg
    rw [printGroups_cons]
    refine ⟨printed_append (hdigits g) hprinted, ?_⟩
    simp only [length_append, length_cons]
    omega

theorem printed_printIpv6 (a : BitVec 128) :
    Printed (printIpv6 a) ∧ (printIpv6 a).length ≤ 100 := by
  have hlength := length_expand 65536 8 a.toNat
  have hlt : ∀ g ∈ Numeral.expand 65536 8 a.toNat, g < 65536 :=
    fun g hg => lt_of_mem_expand (by decide) hg
  unfold printIpv6
  dsimp only
  split
  · obtain ⟨hprinted, hshort, -⟩ := printed_printIpv4 (a.setWidth 32)
    refine ⟨printed_append (printed_of_all (by decide)) hprinted, ?_⟩
    have hseven : "::ffff:".toList.length = 7 := by decide
    rw [length_append]
    omega
  split
  · generalize longestZeros 0 (0, 0) (0, 0) (Numeral.expand 65536 8 a.toNat) = run
    obtain ⟨hfront, hfrontLen⟩ := printed_printGroups
      (fun g (hg : g ∈ (Numeral.expand 65536 8 a.toNat).take run.1) =>
        hlt g (mem_of_mem_take hg))
    obtain ⟨hback, hbackLen⟩ := printed_printGroups
      (fun g (hg : g ∈ (Numeral.expand 65536 8 a.toNat).drop (run.1 + run.2)) =>
        hlt g (mem_of_mem_drop hg))
    refine ⟨printed_append (printed_append hfront (printed_of_all (by decide))) hback, ?_⟩
    have htwo : "::".toList.length = 2 := by decide
    rw [length_take] at hfrontLen
    rw [length_drop] at hbackLen
    rw [length_append, length_append]
    omega
  · obtain ⟨hprinted, hshort⟩ := printed_printGroups hlt
    exact ⟨hprinted, by omega⟩

theorem utf8Len_of_printed (h : Printed s) : utf8Len s = s.length := by
  induction s with
  | nil => rfl
  | cons c s ih =>
    obtain ⟨hc, hs⟩ := forall_mem_cons.mp h
    have hsize : c.utf8Size = 1 := by
      have hle : c.val ≤ 0x7f := UInt32.le_iff_toNat_le.mpr (le_trans hc.2 (by decide))
      simp [Char.utf8Size, hle]
    rw [utf8Len_cons, ih hs, hsize, length_cons, add_comm]

theorem clean_of_printed (h : Printed s) :
    ∀ c ∈ s, isControl c = false ∧ isWhitespace c = false := by
  intro c hc
  obtain ⟨hlow, hhigh⟩ := h c hc
  constructor
  · simp [isControl]
    omega
  · simp [isWhitespace]
    omega

end AddressText

open AddressText in
/-- **The standard library's textual form of addresses is lawful.** -/
theorem IpText.lawful_std : @IpText.Lawful IpText.std := by
  have hprinted : ∀ ip, Printed (printIp ip) ∧ (printIp ip).length ≤ 100 := by
    intro ip
    cases ip with
    | v4 a =>
      obtain ⟨hprinted, hshort, -⟩ := printed_printIpv4 a
      exact ⟨hprinted, le_trans hshort (by decide)⟩
    | v6 a => exact printed_printIpv6 a
  refine @IpText.Lawful.mk IpText.std parseIp_printIp (fun ip hnil => ?_) (fun ip => ?_)
    (fun ip => clean_of_printed (hprinted ip).1)
  · -- the empty text is no address
    have hparse := parseIp_printIp ip
    have hempty : printIp ip = [] := hnil
    rw [hempty] at hparse
    have hnone : parseIp [] = none := by decide
    rw [hnone] at hparse
    cases hparse
  · show utf8Len (printIp ip) ≤ 253
    rw [utf8Len_of_printed (hprinted ip).1]
    exact le_trans (hprinted ip).2 (by decide)

end ClashMeta
