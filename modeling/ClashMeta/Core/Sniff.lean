import ClashMeta.Lib.Scan
import ClashMeta.Protocol.Vless.Address

/-!
# The host name of a TLS handshake

`take`, `length`, `valid_host` and `tls` (core/src/sniff.rs:4-79): the handshake message is put
together from its records, and the `server_name` extension is looked up in it.

The three loops of `tls` are loops over items (`Scan.scan`): records, extensions and names.
-/

namespace ClashMeta.Sniff

open List Option

open Scan

/-! ## Reading from the front -/

/-- `split_at` behind a length check. -/
def take (input : List Byte) (n : Nat) : Option (List Byte × List Byte) :=
  if input.length < n then none else some (input.splitAt n)

/-- A big-endian `u16`. -/
def length (input : List Byte) : Option (Nat × List Byte) := do
  let (bytes, input) ← take input 2
  return (fromBe bytes, input)

variable {n : Nat}

theorem take_append_of_length {a : List Byte} (h : a.length = n) (b : List Byte) :
    take (a ++ b) n = some (a, b) := by
  subst h
  rw [take, if_neg (by simp), splitAt_eq, take_left, drop_left]

variable {input rest data : List Byte}

/-- Taking splits the input. -/
theorem take_eq_some_iff {head tail : List Byte} :
    take input n = some (head, tail) ↔ input = head ++ tail ∧ head.length = n := by
  constructor
  · intro h
    unfold take at h
    split at h
    · cases h
    · rename_i hlen
      rw [splitAt_eq] at h
      cases h
      exact ⟨(take_append_drop n input).symm, length_take_of_le (not_lt.mp hlen)⟩
  · rintro ⟨rfl, hlen⟩
    exact take_append_of_length hlen tail

/-- A length is read back. -/
theorem length_be16_append (h : n < 65536) (input : List Byte) :
    length (be16 n ++ input) = some (n, input) := by
  rw [length, take_append_of_length (length_be16 n), bind_eq_bind]
  exact congrArg (fun k => some (k, input)) (fromBe_be16 h)

theorem length_eq_some (h : length input = some (n, rest)) : input.length = rest.length + 2 := by
  obtain ⟨⟨bytes, tail⟩, htake, heq⟩ := bind_eq_some_iff.mp h
  obtain ⟨rfl, hlen⟩ := take_eq_some_iff.mp htake
  cases heq
  rw [length_append, hlen, add_comm]

/-! ## Hosts -/

/-- `u8::is_ascii_alphanumeric`. -/
def isAsciiAlphanumeric (c : Byte) : Bool :=
  (48 ≤ c && c ≤ 57) || (65 ≤ c && c ≤ 90) || (97 ≤ c && c ≤ 122)

/-- Letters, digits, `-` and `.`. -/
def hostByte (c : Byte) : Bool := isAsciiAlphanumeric c || c == 45 || c == 46

/-- `valid_host`. -/
def validHost (host : Str) : Bool :=
  !host.isEmpty && utf8Len host ≤ 253 && (utf8Bytes host).all hostByte &&
    !containsStr ".." host

/-! ## The message in its records -/

/-- The header of a record with its type and length, and the record. -/
def readRecord (records : List Byte) : Option (List Byte × List Byte) := do
  let (header, records) ← take records 5
  if header.getD 0 0 ≠ 22 then none
  else take records (fromBe16 (header.getD 3 0) (header.getD 4 0))

/-- What a record is read from: a header of five bytes and the fragment. -/
theorem readRecord_eq_some {fragment : List Byte} (h : readRecord input = some (fragment, rest)) :
    ∃ header, input = header ++ fragment ++ rest ∧ header.length = 5 ∧ header.getD 0 0 = 22 ∧
      fragment.length = fromBe16 (header.getD 3 0) (header.getD 4 0) := by
  obtain ⟨⟨header, records⟩, hheader, htake⟩ := bind_eq_some_iff.mp h
  dsimp only at htake
  split at htake
  · cases htake
  · rename_i hkind
    obtain ⟨rfl, hlen⟩ := take_eq_some_iff.mp hheader
    obtain ⟨rfl, hfragment⟩ := take_eq_some_iff.mp htake
    exact ⟨header, (append_assoc _ _ _).symm, hlen, not_not.mp hkind, hfragment⟩

/-- And it is read from that. -/
theorem readRecord_append {header fragment : List Byte} (hlen : header.length = 5)
    (hkind : header.getD 0 0 = 22)
    (hfragment : fragment.length = fromBe16 (header.getD 3 0) (header.getD 4 0))
    (rest : List Byte) :
    readRecord (header ++ fragment ++ rest) = some (fragment, rest) := by
  rw [readRecord, append_assoc, take_append_of_length hlen, bind_eq_bind, bind_some]
  dsimp only
  rw [if_neg (not_not.mpr hkind), take_append_of_length hfragment]

/-- The records of a stream, one by one. -/
def records : Items Byte (List Byte) where
  read := readRecord
  shrinks h := by
    obtain ⟨header, rfl, hlen, -⟩ := readRecord_eq_some h
    simp only [List.length_append]
    omega

/-- More input does not change the records that were read. -/
theorem records_stable : records.Stable := by
  intro input rest fragment t h
  obtain ⟨header, rfl, hlen, hkind, hfragment⟩ := readRecord_eq_some h
  rw [append_assoc]
  exact readRecord_append hlen hkind hfragment (rest ++ t)

/-- The three length bytes behind the type of the message. -/
def size (hello : List Byte) : Nat := fromBe ((hello.drop 1).take 3)

/-- The message has all the bytes it announces. -/
def whole (hello : List Byte) : Bool :=
  4 ≤ hello.length && size hello + 4 ≤ hello.length

/-- A record adds its fragment to the message. -/
def addRecord (hello fragment : List Byte) : Option (Move (List Byte) (List Byte)) :=
  let hello := hello ++ fragment
  -- The limit is on what was put together, not on what the message says it needs.
  if 32768 < hello.length then none
  else if whole hello then some (.done hello)
  else some (.next hello)

/-! ## The server name -/

/-- An entry of the server name list: its kind and the name. -/
def readName (names : List Byte) : Option ((Byte × List Byte) × List Byte) := do
  let (kind, names) ← take names 1
  let (n, names) ← length names
  let (host, names) ← take names n
  return ((kind.getD 0 0, host), names)

/-- The entries of the list. -/
def names : Items Byte (Byte × List Byte) where
  read := readName
  shrinks {input rest i} h := by
    obtain ⟨⟨kind, l⟩, hkind, h₁⟩ := Option.bind_eq_some_iff.mp h
    obtain ⟨⟨n, l'⟩, hn, h₂⟩ := Option.bind_eq_some_iff.mp h₁
    obtain ⟨⟨host, l''⟩, hhost, h₃⟩ := Option.bind_eq_some_iff.mp h₂
    cases h₃
    obtain ⟨rfl, hkind⟩ := take_eq_some_iff.mp hkind
    obtain ⟨rfl, -⟩ := take_eq_some_iff.mp hhost
    have hlen := length_eq_some hn
    simp only [List.length_append] at *
    omega

/-- The first host name ends the search, valid or not. -/
def checkName (_ : Unit) (name : Byte × List Byte) : Option (Move Unit Str) :=
  if name.1 = 0 then do
    -- Text that is no UTF-8 fails the whole search, like an invalid host.
    let host ← fromUtf8 name.2
    let host := asciiLower host
    if validHost host then some (.done host) else none
  else some (.next ())

/-- An extension: its kind and its value. -/
def readExtension (extensions : List Byte) : Option ((Nat × List Byte) × List Byte) := do
  let (kind, extensions) ← length extensions
  let (n, extensions) ← length extensions
  let (value, extensions) ← take extensions n
  return ((kind, value), extensions)

/-- The extensions of a message. -/
def extensions : Items Byte (Nat × List Byte) where
  read := readExtension
  shrinks {input rest i} h := by
    obtain ⟨⟨kind, l⟩, hkind, h₁⟩ := Option.bind_eq_some_iff.mp h
    obtain ⟨⟨n, l'⟩, hn, h₂⟩ := Option.bind_eq_some_iff.mp h₁
    obtain ⟨⟨value, l''⟩, hvalue, h₃⟩ := Option.bind_eq_some_iff.mp h₂
    cases h₃
    obtain ⟨rfl, -⟩ := take_eq_some_iff.mp hvalue
    have hkindlen := length_eq_some hkind
    have hlen := length_eq_some hn
    simp only [List.length_append] at *
    omega

/-- Kind 0 is `server_name`; a list without a host name is passed over too. -/
def checkExtension (_ : Unit) (extension : Nat × List Byte) : Option (Move Unit Str) :=
  if extension.1 ≠ 0 then some (.next ())
  else do
    let (n, value) ← length extension.2
    let (list, _) ← take value n
    let (move, _) ← scan names checkName () list
    return move

/-- The fields of the message in their order, up to the extensions. -/
def extensionsOf (hello : List Byte) : Option (List Byte) := do
  let (kind, input) ← take hello 1
  if kind.getD 0 0 ≠ 1 then none
  else do
    let (n, input) ← take input 3
    -- From here on nothing behind the message is seen; a message that is not whole fails.
    let (input, _) ← take input (fromBe n)
    let (_, input) ← take input 34
    let (n, input) ← take input 1
    let (_, input) ← take input (n.getD 0 0).toNat
    let (n, input) ← length input
    let (_, input) ← take input n
    let (n, input) ← take input 1
    let (_, input) ← take input (n.getD 0 0).toNat
    let (n, input) ← length input
    let (list, _) ← take input n
    return list

/-- `server_name`. -/
def serverName (hello : List Byte) : Option Str := do
  let list ← extensionsOf hello
  match ← scan extensions checkExtension () list with
  | (.done host, _) => some host
  | (.next _, _) => none

/-- The message as far as the loop over the records has put it together. -/
def hello : Move (List Byte) (List Byte) → List Byte
  | .next hello => hello
  | .done hello => hello

/-- `tls`: the host that the first bytes of a TLS stream ask for. -/
def tls (data : List Byte) : Option Str := do
  let (move, _) ← scan records addRecord [] data
  serverName (hello move)

/-! ## Only whole messages -/

variable {hello : List Byte} {host : Str}

/-- When a handshake message is complete. -/
theorem whole_iff : whole hello = true ↔ 4 ≤ hello.length ∧ size hello + 4 ≤ hello.length := by
  rw [whole, Bool.and_eq_true, decide_eq_true_iff, decide_eq_true_iff]

theorem whole_of_extensionsOf {list : List Byte} (h : extensionsOf hello = some list) :
    whole hello = true := by
  obtain ⟨⟨kind, input⟩, hkind, hfields⟩ := bind_eq_some_iff.mp h
  dsimp only at hfields
  split at hfields
  · cases hfields
  · obtain ⟨⟨n, left⟩, hn, hfields⟩ := bind_eq_some_iff.mp hfields
    obtain ⟨⟨body, rest⟩, hbody, -⟩ := bind_eq_some_iff.mp hfields
    obtain ⟨rfl, hone⟩ := take_eq_some_iff.mp hkind
    obtain ⟨rfl, hthree⟩ := take_eq_some_iff.mp hn
    obtain ⟨rfl, hlen⟩ := take_eq_some_iff.mp hbody
    have hsize : size (kind ++ (n ++ (body ++ rest))) = body.length := by
      rw [size, ← hone, drop_left, ← hthree, take_left, hlen]
    rw [whole_iff]
    simp only [length_append]
    omega

/-- A name is found in complete messages only. -/
theorem whole_of_serverName (h : serverName hello = some host) : whole hello = true := by
  obtain ⟨list, hlist, -⟩ := bind_eq_some_iff.mp h
  exact whole_of_extensionsOf hlist

/-- The loop ends with the first complete message. -/
theorem addRecord_sat (hello fragment : List Byte) (m : Move (List Byte) (List Byte))
    (h : addRecord hello fragment = some m) :
    m.Sat (fun hello => ¬ whole hello = true) (fun hello => whole hello = true) := by
  unfold addRecord at h
  dsimp only at h
  split_ifs at h with hlen hwhole
  · cases h
    exact hwhole
  · cases h
    exact hwhole

/-- A host was found in a complete message. -/
theorem done_of_tls (h : tls data = some host) :
    ∃ hello rest, scan records addRecord [] data = some (.done hello, rest) ∧
      serverName hello = some host := by
  obtain ⟨⟨m, rest⟩, hscan, hname⟩ := bind_eq_some_iff.mp h
  cases m with
  | done hello => exact ⟨hello, rest, hscan, hname⟩
  | next hello =>
    -- The records ran out first, with a message that is not whole.
    have hnot : ¬ whole hello = true := scan_sat (fun s i m _ hm => addRecord_sat s i m hm)
      (by decide : ¬ whole [] = true) hscan
    exact absurd (whole_of_serverName hname) hnot

/-- What is found in it is the answer. -/
theorem tls_of_done (h : scan records addRecord [] data = some (.done hello, rest)) :
    tls data = serverName hello := by
  rw [tls, h, bind_eq_bind]
  rfl

/-- A host once found is found whatever comes behind. -/
theorem tls_append (h : tls data = some host) (t : List Byte) : tls (data ++ t) = some host := by
  obtain ⟨hello, rest, hscan, hname⟩ := done_of_tls h
  rw [tls_of_done (scan_append records_stable t hscan), hname]

/-! ## Only valid hosts -/

theorem checkName_sat (s : Unit) (name : Byte × List Byte) (m : Move Unit Str)
    (h : checkName s name = some m) :
    m.Sat (fun _ => True) (fun host => validHost host = true) := by
  unfold checkName at h
  split at h
  · obtain ⟨host, -, hvalid⟩ := bind_eq_some_iff.mp h
    dsimp only at hvalid
    split at hvalid
    · rename_i hok
      cases hvalid
      exact hok
    · cases hvalid
  · cases h
    exact True.intro

/-- The host that is found is valid. -/
theorem checkExtension_sat (s : Unit) (extension : Nat × List Byte) (m : Move Unit Str)
    (h : checkExtension s extension = some m) :
    m.Sat (fun _ => True) (fun host => validHost host = true) := by
  unfold checkExtension at h
  split at h
  · cases h
    exact True.intro
  · obtain ⟨⟨n, value⟩, -, htake⟩ := bind_eq_some_iff.mp h
    obtain ⟨⟨list, rest⟩, -, hscan⟩ := bind_eq_some_iff.mp htake
    obtain ⟨⟨move, left⟩, hscan, hm⟩ := bind_eq_some_iff.mp hscan
    cases hm
    exact scan_sat (fun s i m _ hm => checkName_sat s i m hm) True.intro hscan

/-- A sniffed server name is a valid host. -/
theorem validHost_of_tls (h : tls data = some host) : validHost host = true := by
  obtain ⟨hello, -, -, hname⟩ := done_of_tls h
  obtain ⟨list, -, hfound⟩ := bind_eq_some_iff.mp hname
  obtain ⟨⟨m, rest⟩, hscan, hm⟩ := bind_eq_some_iff.mp hfound
  have hsat := scan_sat (fun s i m _ hm => checkExtension_sat s i m hm) True.intro hscan
  cases m with
  | done found =>
    cases hm
    exact hsat
  | next s => cases hm

end ClashMeta.Sniff
