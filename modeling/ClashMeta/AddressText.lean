import ClashMeta.Lib.Numerals
import ClashMeta.Text

/-!
# Addresses as text

The standard library's parser and printer of IP addresses and socket addresses
(`core::net`): `str::parse` for `IpAddr` and `SocketAddr`, and `Display` for `Ipv4Addr` and
`Ipv6Addr`. A reader takes something off the front of a text or fails; a parser also wants the
whole text used up.

An IPv4 address has one spelling. A port may have zeros in front, and a socket address with an
IPv6 address has brackets, which the printed address has not.
-/

namespace ClashMeta

open List Option Numeral

namespace AddressText

/-- One given character. -/
def given (c : Char) : Str → Option Str
  | [] => none
  | d :: s => if d = c then some s else none

/-! ## IPv4 -/

/-- A part of an IPv4 address: at most three digits, without zeros in front. -/
def readOctet : Str → Option (Nat × Str) := Numeral.read 10 256 (some 3) false

/-- `read_ipv4_addr`. -/
def readIpv4 (s : Str) : Option (BitVec 32 × Str) :=
  (readOctet s).bind fun a =>
  ((given '.' a.2).bind readOctet).bind fun b =>
  ((given '.' b.2).bind readOctet).bind fun c =>
  ((given '.' c.2).bind readOctet).map fun d =>
  (BitVec.ofNat 32 (Numeral.value 256 [a.1, b.1, c.1, d.1]), d.2)

/-- `Ipv4Addr::fmt`. -/
def printIpv4 (a : BitVec 32) : Str :=
  ['.'].intercalate ((Numeral.expand 256 4 a.toNat).map (Nat.toDigits 10))

/-! ## IPv6 -/

/-- A group of an IPv6 address: at most four hexadecimal digits. -/
def readGroup : Str → Option (Nat × Str) := Numeral.read 16 65536 (some 4) true

/-- The colon in front of a group, except the first. -/
def separator (first : Bool) (s : Str) : Option Str := if first then some s else given ':' s

/-- `read_groups`: at most so many groups, and whether they end in an IPv4 address, which takes
the place of two. -/
def readGroups : Nat → Bool → Str → List Nat × Bool × Str
  | 0, _, s => ([], false, s)
  | left + 1, first, s =>
    match if 0 < left then (separator first s).bind readIpv4 else none with
    | some (a, s) => ([a.toNat / 65536, a.toNat % 65536], true, s)
    | none =>
      match (separator first s).bind readGroup with
      | some (g, s) =>
        (g :: (readGroups left false s).1, (readGroups left false s).2)
      | none => ([], false, s)

/-- An address from its eight groups. -/
def ofGroups (groups : List Nat) : BitVec 128 := BitVec.ofNat 128 (Numeral.value 65536 groups)

/-- `read_ipv6_addr`: all eight groups, or two parts with `::` for the zeros between them. -/
def readIpv6 (s : Str) : Option (BitVec 128 × Str) :=
  match readGroups 8 true s with
  | (head, embedded, s) =>
    if head.length = 8 then some (ofGroups head, s)
    else if embedded then none
    else
      ((given ':' s).bind (given ':')).map fun s =>
        match readGroups (7 - head.length) true s with
        | (tail, _, s) =>
          (ofGroups (head ++ List.replicate (8 - head.length - tail.length) 0 ++ tail), s)

/-- Groups in hexadecimal, with colons. -/
def printGroups (groups : List Nat) : Str :=
  [':'].intercalate (groups.map (Nat.toDigits 16))

/-- The search for the first longest run of zero groups: the place, the best run and the
present one so far, each as a start and a length. -/
def longestZeros : Nat → Nat × Nat → Nat × Nat → List Nat → Nat × Nat
  | _, best, _, [] => best
  | i, best, run, g :: groups =>
    if g = 0 then
      let run := if run.2 = 0 then (i, 1) else (run.1, run.2 + 1)
      longestZeros (i + 1) (if best.2 < run.2 then run else best) run groups
    else longestZeros (i + 1) best (0, 0) groups

/-- `Ipv6Addr::fmt`. -/
def printIpv6 (a : BitVec 128) : Str :=
  let groups := Numeral.expand 65536 8 a.toNat
  if groups.take 6 = [0, 0, 0, 0, 0, 0xffff] then "::ffff:" ++ printIpv4 (a.setWidth 32)
  else
    let zeros := longestZeros 0 (0, 0) (0, 0) groups
    if 1 < zeros.2 then
      printGroups (groups.take zeros.1) ++ "::" ++
        printGroups (groups.drop (zeros.1 + zeros.2))
    else printGroups groups

/-! ## Either family -/

/-- The whole text is used up. -/
def complete {α : Type} : Option (α × Str) → Option α
  | some (a, []) => some a
  | _ => none

/-- `str::parse::<IpAddr>`. -/
def parseIp (s : Str) : Option IpAddr :=
  complete (((readIpv4 s).map fun r => (.v4 r.1, r.2)).or
    ((readIpv6 s).map fun r => (.v6 r.1, r.2)))

/-- `IpAddr::to_string`. -/
def printIp : IpAddr → Str
  | .v4 a => printIpv4 a
  | .v6 a => printIpv6 a

/-- `read_port`. -/
def readPort (s : Str) : Option (Nat × Str) := (given ':' s).bind (Numeral.read 10 65536 none true)

/-- `read_scope_id`, which may be missing. -/
def skipScope (s : Str) : Str :=
  match (given '%' s).bind (Numeral.read 10 (2 ^ 32) none true) with
  | some r => r.2
  | none => s

/-- `read_socket_addr_v4`. -/
def readSocketV4 (s : Str) : Option ((IpAddr × UInt16) × Str) :=
  (readIpv4 s).bind fun a => (readPort a.2).map fun p => ((.v4 a.1, UInt16.ofNat p.1), p.2)

/-- `read_socket_addr_v6`. -/
def readSocketV6 (s : Str) : Option ((IpAddr × UInt16) × Str) :=
  ((given '[' s).bind readIpv6).bind fun a =>
  ((given ']' (skipScope a.2)).bind readPort).map fun p => ((.v6 a.1, UInt16.ofNat p.1), p.2)

/-- `str::parse::<SocketAddr>`, without the scope of an IPv6 address. -/
def parseSocketAddr (s : Str) : Option (IpAddr × UInt16) :=
  complete ((readSocketV4 s).or (readSocketV6 s))

end AddressText

/-- The textual form of addresses that the standard library has. -/
@[reducible] def IpText.std : IpText := ⟨AddressText.parseIp, AddressText.printIp⟩

namespace AddressText

/-! ## Printed IPv4 addresses -/

variable {c d : Char} {s t : Str}

theorem given_eq_some : given c s = some t ↔ s = c :: t := by
  cases s with
  | nil => exact ⟨fun h => (by cases h), fun h => (by cases h)⟩
  | cons d s =>
    rw [given]
    constructor
    · intro h
      split at h
      · rename_i hd
        cases h
        rw [hd]
      · cases h
    · intro h
      cases h
      exact if_pos rfl

theorem given_eq_none (h : c ∉ s) : given c s = none := by
  rw [eq_none_iff_forall_ne_some]
  intro t ht
  rw [given_eq_some] at ht
  rw [ht] at h
  exact h mem_cons_self

@[simp] theorem given_cons (c : Char) (s : Str) : given c (c :: s) = some s := if_pos rfl

theorem stops_dot (s : Str) : Stops 10 ('.' :: s) := stops_cons (by decide)

theorem stops_colon (s : Str) : Stops 10 (':' :: s) := stops_cons (by decide)

theorem readOctet_toDigits {n : Nat} (hn : n < 256) (ht : Stops 10 t) :
    readOctet (Nat.toDigits 10 n ++ t) = some (n, t) := by
  refine read_toDigits (by decide) (by decide) hn (fun m hm => ?_) false ht
  cases hm
  exact (Nat.length_toDigits_le_iff (by decide) (by decide)).mpr (by omega)

theorem printIpv4_eq (a : BitVec 32) : ∃ w x y z, w < 256 ∧ x < 256 ∧ y < 256 ∧ z < 256 ∧
    a = BitVec.ofNat 32 (Numeral.value 256 [w, x, y, z]) ∧
    printIpv4 a = Nat.toDigits 10 w ++ '.' :: (Nat.toDigits 10 x ++ '.' :: (Nat.toDigits 10 y ++
      '.' :: Nat.toDigits 10 z)) := by
  refine ⟨a.toNat / 256 / 256 / 256 % 256, a.toNat / 256 / 256 % 256, a.toNat / 256 % 256,
    a.toNat % 256, Nat.mod_lt _ (by decide), Nat.mod_lt _ (by decide), Nat.mod_lt _ (by decide),
    Nat.mod_lt _ (by decide), ?_, ?_⟩
  · have hpow : 256 ^ 4 = 2 ^ 32 := by decide
    have hvalue := value_expand 256 4 a.toNat
    rw [hpow, Nat.mod_eq_of_lt a.isLt] at hvalue
    refine BitVec.eq_of_toNat_eq ?_
    exact (Nat.mod_eq_of_lt a.isLt).symm.trans (congrArg (· % 2 ^ 32) hvalue.symm)
  · simp [printIpv4, Numeral.expand, intercalate, List.intersperse]

/-- **A printed IPv4 address is read back.** -/
theorem readIpv4_printIpv4 (a : BitVec 32) (ht : Stops 10 t) :
    readIpv4 (printIpv4 a ++ t) = some (a, t) := by
  obtain ⟨w, x, y, z, hw, hx, hy, hz, ha, hprint⟩ := printIpv4_eq a
  rw [hprint]
  simp only [append_assoc, cons_append, readIpv4, readOctet_toDigits hw (stops_dot _),
    readOctet_toDigits hx (stops_dot _), readOctet_toDigits hy (stops_dot _),
    readOctet_toDigits hz ht, bind_some, given_cons, map_some]
  rw [← ha]

theorem readIpv4_eq_none (h : '.' ∉ s) : readIpv4 s = none := by
  unfold readIpv4
  cases ha : readOctet s with
  | none => rfl
  | some a =>
    have hsuffix := read_suffix ha
    have hdot : given '.' a.2 = none := given_eq_none fun hmem => h (hsuffix.subset hmem)
    rw [bind_some, hdot]
    rfl

theorem readIpv4_colon (s : Str) : readIpv4 (':' :: s) = none := by
  rfl

/-! ## Printed groups -/

theorem ne_of_mem_toDigits {radix n : Nat} (hradix : 1 < radix) (h16 : radix ≤ 16)
    (hc : c ∈ Nat.toDigits radix n) (hd : Numeral.digit? radix d = none) : c ≠ d := by
  rintro rfl
  have hsome := (toDigits_digits hradix h16 n).1 c hc
  rw [hd] at hsome
  cases hsome

theorem notMem_printIpv4 (a : BitVec 32) (hd : Numeral.digit? 10 d = none) (hdot : d ≠ '.') :
    d ∉ printIpv4 a := by
  have hdigits : ∀ n, d ∉ Nat.toDigits 10 n := fun n h =>
    ne_of_mem_toDigits (by decide) (by decide) h hd rfl
  obtain ⟨w, x, y, z, -, -, -, -, -, hprint⟩ := printIpv4_eq a
  simp [hprint, hdigits, hdot]

/-- The groups behind the first, each with its colon. -/
def printRest (groups : List Nat) : Str := groups.flatMap fun g => ':' :: Nat.toDigits 16 g

theorem printGroups_cons (g : Nat) (groups : List Nat) :
    printGroups (g :: groups) = Nat.toDigits 16 g ++ printRest groups := by
  induction groups generalizing g with
  | nil => simp [printGroups, printRest, intercalate]
  | cons h groups ih =>
    have hrest : printRest (h :: groups) = ':' :: printGroups (h :: groups) := by
      rw [ih]
      rfl
    rw [hrest]
    simp [printGroups, intercalate]

theorem readGroup_toDigits {g : Nat} (hg : g < 65536) (ht : Stops 16 t) :
    readGroup (Nat.toDigits 16 g ++ t) = some (g, t) := by
  refine read_toDigits (by decide) (by decide) hg (fun m hm => ?_) true ht
  cases hm
  exact (Nat.length_toDigits_le_iff (by decide) (by decide)).mpr (by omega)

theorem stops_printRest (groups : List Nat) : Stops 16 (printRest groups) := by
  cases groups with
  | nil => exact stops_nil 16
  | cons g groups => exact stops_cons (by decide)

theorem notMem_printRest (groups : List Nat) (hd : Numeral.digit? 16 d = none) (hcolon : d ≠ ':') :
    d ∉ printRest groups := by
  intro hmem
  obtain ⟨g, -, hmem⟩ := mem_flatMap.mp hmem
  rcases mem_cons.mp hmem with h | h
  · exact hcolon h
  · exact ne_of_mem_toDigits (by decide) (by decide) h hd rfl

theorem notMem_printGroups (groups : List Nat) (hd : Numeral.digit? 16 d = none)
    (hcolon : d ≠ ':') :
    d ∉ printGroups groups := by
  cases groups with
  | nil => exact not_mem_nil
  | cons g groups =>
    rw [printGroups_cons, mem_append]
    rintro (h | h)
    · exact ne_of_mem_toDigits (by decide) (by decide) h hd rfl
    · exact notMem_printRest groups hd hcolon h

theorem readGroups_succ {left : Nat} {first : Bool} {u : Str} {g : Nat}
    (hseparator : separator first s = some u) (hdot : '.' ∉ u)
    (hgroup : readGroup u = some (g, t)) :
    readGroups (left + 1) first s =
      (g :: (readGroups left false t).1, (readGroups left false t).2) := by
  rw [readGroups, hseparator, bind_some, bind_some, readIpv4_eq_none hdot, ite_self, hgroup]

/-! ## Socket addresses -/

/-- **A printed IPv4 address and port** is a socket address. -/
theorem parseSocketAddr_printIpv4 (a : BitVec 32) (port : UInt16) :
    parseSocketAddr (printIpv4 a ++ ':' :: Nat.toDigits 10 port.toNat) = some (.v4 a, port) := by
  have hport : Numeral.read 10 65536 none true (Nat.toDigits 10 port.toNat) =
      some (port.toNat, []) := by
    have hread : Numeral.read 10 65536 none true (Nat.toDigits 10 port.toNat ++ []) =
        some (port.toNat, []) :=
      read_toDigits (by decide) (by decide) port.toNat_lt (fun m hm => (by cases hm)) true
        (stops_nil 10)
    rwa [append_nil] at hread
  rw [parseSocketAddr, readSocketV4, readIpv4_printIpv4 a (stops_colon _), bind_some,
    readPort, given_cons, bind_some, hport, map_some, UInt16.ofNat_toNat]
  rfl

theorem notMem_toDigits_port (port : UInt16) (hd : Numeral.digit? 10 d = none) (hcolon : d ≠ ':') :
    d ∉ ':' :: Nat.toDigits 10 port.toNat := by
  rw [mem_cons]
  rintro (h | h)
  · exact hcolon h
  · exact ne_of_mem_toDigits (by decide) (by decide) h hd rfl

theorem printIpv6_cases (a : BitVec 128) :
    (∃ b, printIpv6 a = "::ffff:" ++ printIpv4 b) ∨
      ∀ d, Numeral.digit? 16 d = none → d ≠ ':' → d ∉ printIpv6 a := by
  unfold printIpv6
  dsimp only
  split
  · exact .inl ⟨_, rfl⟩
  refine .inr fun d hd hcolon => ?_
  split
  · rw [mem_append, mem_append]
    rintro ((h | h) | h)
    · exact notMem_printGroups _ hd hcolon h
    · simp [hcolon] at h
    · exact notMem_printGroups _ hd hcolon h
  · exact notMem_printGroups _ hd hcolon

/-- **A printed IPv6 address and port** is none: it has no brackets. -/
theorem parseSocketAddr_printIpv6 (a : BitVec 128) (port : UInt16) :
    parseSocketAddr (printIpv6 a ++ ':' :: Nat.toDigits 10 port.toNat) = none := by
  rcases printIpv6_cases a with ⟨b, hmapped⟩ | hdigits
  · rw [hmapped, parseSocketAddr]
    rfl
  · have hnone : ∀ d, Numeral.digit? 16 d = none → Numeral.digit? 10 d = none → d ≠ ':' →
        d ∉ printIpv6 a ++ ':' :: Nat.toDigits 10 port.toNat := by
      intro d h16 h10 hcolon
      rw [mem_append, not_or]
      exact ⟨hdigits d h16 hcolon, notMem_toDigits_port port h10 hcolon⟩
    rw [parseSocketAddr, readSocketV4, readSocketV6,
      readIpv4_eq_none (hnone '.' (by decide) (by decide) (by decide)),
      given_eq_none (hnone '[' (by decide) (by decide) (by decide))]
    rfl

end AddressText

end ClashMeta
