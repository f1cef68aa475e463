import ClashMeta.Core.Sniff

/-!
# ClientHello messages and their records

What `tls` (core/src/sniff.rs:23-79) finds in the messages of TLS clients. A `ClientHello` is
one that names a host; `message` is its handshake message, and `Record.encode` a record that
carries a part of it.
-/

namespace ClashMeta.Sniff

open List
open Option hiding all_eq_true map_map

open Scan

/-! ## Hosts in lower case -/

/-- The bytes of host names, by their numbers. -/
theorem hostByte_ofNat {n : Nat} (h : n < 256) : hostByte (UInt8.ofNat n) = true ↔
    (48 ≤ n ∧ n ≤ 57) ∨ (65 ≤ n ∧ n ≤ 90) ∨ (97 ≤ n ∧ n ≤ 122) ∨ n = 45 ∨ n = 46 := by
  have hn : (UInt8.ofNat n).toNat = n := UInt8.toNat_ofNat_of_lt' h
  simp only [hostByte, isAsciiAlphanumeric, Bool.or_eq_true, Bool.and_eq_true, decide_eq_true_iff,
    beq_iff_eq, UInt8.le_iff_toNat_le, ← UInt8.toNat_inj, hn, UInt8.reduceToNat]
  omega

variable {c : Char}

/-- Characters of host names are ASCII. -/
theorem val_le_of_hostBytes (h : (String.utf8EncodeChar c).all hostByte) :
    c.toNat ≤ 127 ∧ hostByte (UInt8.ofNat c.toNat) = true := by
  unfold String.utf8EncodeChar at h
  have hhigh : ∀ n : Nat, 127 < n → n < 256 → ¬ hostByte (UInt8.ofNat n) = true := by
    intro n hlow hn h
    rw [hostByte_ofNat hn] at h
    omega
  dsimp only at h
  split_ifs at h with h1 h2 h3
  · exact ⟨h1, by simpa using h⟩
  all_goals
    rw [all_cons, Bool.and_eq_true] at h
    exact absurd h.1 (hhigh _ (by omega) (by omega))

/-- The lower case of one is one, and no longer. -/
theorem hostBytes_toLower (h : (String.utf8EncodeChar c).all hostByte) :
    (String.utf8EncodeChar c.toLower).all hostByte = true ∧ c.toLower.utf8Size = c.utf8Size := by
  obtain ⟨hascii, hbyte⟩ := val_le_of_hostBytes h
  have hlower : c.toLower.toNat ≤ 127 := by
    rw [toNat_toLower]
    split_ifs <;> omega
  have hone : ∀ d : Char, d.toNat ≤ 127 → d.utf8Size = 1 := fun d hd =>
    Char.utf8Size_eq_one_iff.mpr (UInt32.le_iff_toNat_le.mpr hd)
  refine ⟨?_, (hone _ hlower).trans (hone _ hascii).symm⟩
  have hcode : String.utf8EncodeChar c.toLower = [UInt8.ofNat c.toLower.toNat] := by
    exact if_pos hlower
  rw [hcode, all_cons, all_nil, Bool.and_true, hostByte_ofNat (by omega), toNat_toLower]
  rw [hostByte_ofNat (by omega)] at hbyte
  split_ifs <;> omega

/-- Lower case brings no dots together. -/
theorem dots_of_asciiLower {s : Str} (h : containsStr ".." (asciiLower s)) :
    containsStr ".." s = true := by
  rw [containsStr_iff] at h ⊢
  obtain ⟨a, b, hab⟩ := h
  obtain ⟨l, b', rfl, hl, -⟩ := map_eq_append_iff.mp hab.symm
  obtain ⟨a', dots, rfl, -, hdots⟩ := map_eq_append_iff.mp hl
  obtain ⟨c, l, rfl, hc, hl⟩ := map_eq_cons_iff.mp hdots
  obtain ⟨d, l, rfl, hd, hl⟩ := map_eq_cons_iff.mp hl
  rw [map_eq_nil_iff.mp hl, (toLower_eq_dot_iff c).mp hc, (toLower_eq_dot_iff d).mp hd]
  exact ⟨a', b', rfl⟩

variable {host : Str}

/-- What `valid_host` checks. -/
theorem validHost_iff : validHost host = true ↔ host ≠ [] ∧ utf8Len host ≤ 253 ∧
    (∀ c ∈ host, (String.utf8EncodeChar c).all hostByte = true) ∧
      containsStr ".." host = false := by
  simp only [validHost, utf8Bytes, all_flatMap, Bool.and_eq_true, Bool.not_eq_true',
    isEmpty_eq_false_iff, decide_eq_true_iff, all_eq_true, and_assoc]

/-- The lower case of a valid host is valid. -/
theorem validHost_asciiLower (h : validHost host) : validHost (asciiLower host) = true := by
  obtain ⟨hne, hlen, hbytes, hdots⟩ := validHost_iff.mp h
  have hsame : utf8Len (asciiLower host) = utf8Len host := by
    rw [utf8Len, asciiLower, map_map]
    exact congrArg List.sum
      (map_congr_left fun c hc => (hostBytes_toLower (hbytes c hc)).2)
  refine validHost_iff.mpr ⟨fun h0 => hne (map_eq_nil_iff.mp h0), hsame ▸ hlen, ?_, ?_⟩
  · intro d hd
    obtain ⟨c, hc, rfl⟩ := mem_map.mp hd
    exact (hostBytes_toLower (hbytes c hc)).1
  · rw [Bool.eq_false_iff] at hdots ⊢
    exact fun hlower => hdots (dots_of_asciiLower hlower)

/-! ## Messages that name a host -/

/-- A byte string behind its length in one byte. -/
def vec8 (bytes : List Byte) : List Byte := UInt8.ofNat bytes.length :: bytes

/-- A byte string behind its length in two bytes. -/
def vec16 (bytes : List Byte) : List Byte := be16 bytes.length ++ bytes

/-- An entry of the server name list. -/
def encodeName (name : Byte × List Byte) : List Byte := name.1 :: vec16 name.2

/-- An extension. -/
def encodeExtension (extension : Nat × List Byte) : List Byte :=
  be16 extension.1 ++ vec16 extension.2

/-- A ClientHello with a `server_name` extension, and a host name among its names. -/
structure ClientHello where
  /-- The version and the random bytes. -/
  start : List Byte
  session : List Byte
  suites : List Byte
  compression : List Byte
  /-- The extensions in front of `server_name`, with their kinds. -/
  earlier : List (Nat × List Byte)
  /-- The names in front of the first host name, with their kinds. -/
  others : List (Byte × List Byte)
  host : Str
  furtherNames : List (Byte × List Byte)
  later : List (Nat × List Byte)
  length_start : start.length = 34
  length_session : session.length < 256
  length_compression : compression.length < 256
  earlier_kind : ∀ e ∈ earlier, e.1 ≠ 0 ∧ e.1 < 65536
  others_kind : ∀ n ∈ others, n.1 ≠ 0

namespace ClientHello

/-- The server name list: the host between other entries. -/
def nameList (c : ClientHello) : List Byte :=
  c.others.flatMap encodeName ++ encodeName (0, utf8Bytes c.host) ++
    c.furtherNames.flatMap encodeName

/-- The extensions: the server names between others. -/
def extensionList (c : ClientHello) : List Byte :=
  c.earlier.flatMap encodeExtension ++ encodeExtension (0, vec16 c.nameList) ++
    c.later.flatMap encodeExtension

/-- The body of the message. -/
def body (c : ClientHello) : List Byte :=
  c.start ++ vec8 c.session ++ vec16 c.suites ++ vec8 c.compression ++ vec16 c.extensionList

/-- The handshake message: its type, its length and its body. -/
def message (c : ClientHello) : List Byte := [1] ++ beBytes 3 c.body.length ++ c.body

end ClientHello

theorem take_vec8 (bytes rest : List Byte) :
    take (vec8 bytes ++ rest) 1 = some ([UInt8.ofNat bytes.length], bytes ++ rest) := by
  exact take_append_of_length (length_singleton) (bytes ++ rest)

/-- The length in front of a vector is read back. -/
theorem length_vec16 {bytes : List Byte} (h : bytes.length < 65536) (rest : List Byte) :
    length (vec16 bytes ++ rest) = some (bytes.length, bytes ++ rest) := by
  exact length_be16_append h (bytes ++ rest)

theorem take_self (bytes rest : List Byte) :
    take (bytes ++ rest) bytes.length = some (bytes, rest) :=
  take_append_of_length rfl rest

/-- A name is read back from the list of names. -/
theorem readName_encodeName {name : Byte × List Byte} (h : name.2.length < 65536)
    (rest : List Byte) : readName (encodeName name ++ rest) = some (name, rest) := by
  have hkind : take (encodeName name ++ rest) 1 = some ([name.1], vec16 name.2 ++ rest) := by
    exact take_append_of_length length_singleton _
  simp only [readName, hkind, length_vec16 h, take_self, bind_eq_bind, bind_some]
  rfl

/-- An extension is read back from the list of extensions. -/
theorem readExtension_encodeExtension {extension : Nat × List Byte} (hkind : extension.1 < 65536)
    (h : extension.2.length < 65536) (rest : List Byte) :
    readExtension (encodeExtension extension ++ rest) = some (extension, rest) := by
  have hfirst : length (encodeExtension extension ++ rest) =
      some (extension.1, vec16 extension.2 ++ rest) := by
    exact length_be16_append hkind _
  simp only [readExtension, hfirst, length_vec16 h, take_self, bind_eq_bind, bind_some]
  rfl

theorem length_le_flatMap {α β : Type} {f : α → List β} {l : List α} {a : α} (h : a ∈ l) :
    (f a).length ≤ (l.flatMap f).length :=
  (sublist_flatten_of_mem (mem_map_of_mem h)).length_le

namespace ClientHello

variable {c : ClientHello}

section

variable (h : c.message.length ≤ 32768)

include h

/-- The list of extensions stays within its length field. -/
theorem length_extensionList_lt : c.extensionList.length + 6 < 32768 := by
  simp only [message, body, vec8, vec16, length_append, length_cons, length_be16,
    length_beBytes, length_nil, c.length_start] at h
  omega

/-- So does the list of names. -/
theorem length_nameList_lt : c.nameList.length + 6 < 32768 := by
  have hlist := length_extensionList_lt h
  simp only [extensionList, encodeExtension, vec16, length_append, length_be16] at hlist
  omega

/-- The parser comes to the extensions of a ClientHello. -/
theorem extensionsOf_message : extensionsOf c.message = some c.extensionList := by
  have hlist := length_extensionList_lt h
  have hbody : c.body.length < 256 ^ 3 ∧ c.suites.length < 65536 := by
    simp only [message, body, vec8, vec16, length_append, length_cons, length_be16,
      length_beBytes, length_nil, c.length_start] at h ⊢
    omega
  have hkind : take c.message 1 = some ([1], beBytes 3 c.body.length ++ c.body) := by
    exact take_append_of_length length_singleton _
  have hsize : take (beBytes 3 c.body.length ++ c.body) 3 =
      some (beBytes 3 c.body.length, c.body) := take_append_of_length (length_beBytes 3 _) _
  have hall : take c.body c.body.length = some (c.body, []) := by
    simpa using take_self c.body []
  have hstart : take c.body 34 = some (c.start, vec8 c.session ++ (vec16 c.suites ++
      (vec8 c.compression ++ (vec16 c.extensionList ++ [])))) := by
    rw [body]
    simp only [append_assoc, append_nil]
    exact take_append_of_length c.length_start _
  have hsession : (UInt8.ofNat c.session.length).toNat = c.session.length :=
    UInt8.toNat_ofNat_of_lt' c.length_session
  have hcompression : (UInt8.ofNat c.compression.length).toNat = c.compression.length :=
    UInt8.toNat_ofNat_of_lt' c.length_compression
  simp only [extensionsOf, hkind, hsize, fromBe_beBytes hbody.1, hall, hstart, take_vec8, hsession,
    hcompression, take_self, length_vec16 hbody.2, bind_eq_bind, bind_some,
    getD_cons_zero, length_vec16 (show c.extensionList.length < 65536 by omega)]
  rfl

/-- It finds the host in the list of names. -/
theorem scan_nameList (hvalid : validHost c.host) :
    ∃ rest, scan names checkName () c.nameList = some (.done (asciiLower c.host), rest) := by
  have hlist := length_nameList_lt h
  simp only [nameList, length_append] at hlist
  have hothers : ∀ n ∈ c.others, ∀ p, names.read (encodeName n ++ p) = some (n, p) := by
    intro n hn p
    have hle := length_le_flatMap (f := encodeName) hn
    refine readName_encodeName ?_ p
    rw [encodeName, length_cons, vec16, length_append] at hle
    omega
  have hhost : checkName () (0, utf8Bytes c.host) = some (.done (asciiLower c.host)) := by
    rw [checkName, fromUtf8_utf8Bytes, bind_eq_bind]
    exact if_pos (validHost_asciiLower hvalid)
  refine ⟨c.furtherNames.flatMap encodeName, ?_⟩
  rw [nameList, append_assoc, scan_flatMap _ hothers fun n hn => ?_]
  · refine scan_done (readName_encodeName ?_ _) hhost
    simp only [encodeName, vec16, length_cons, length_append, length_be16] at hlist ⊢
    omega
  · rw [checkName, if_neg (c.others_kind n hn)]

/-- The host of a message. -/
theorem serverName_message (hvalid : validHost c.host) :
    serverName c.message = some (asciiLower c.host) := by
  have hlist := length_extensionList_lt h
  simp only [extensionList, length_append] at hlist
  have hearlier : ∀ e ∈ c.earlier, ∀ p,
      extensions.read (encodeExtension e ++ p) = some (e, p) := by
    intro e he p
    have hle := length_le_flatMap (f := encodeExtension) he
    refine readExtension_encodeExtension (c.earlier_kind e he).2 ?_ p
    rw [encodeExtension, length_append, vec16, length_append] at hle
    omega
  have hnames := length_nameList_lt h
  have hname : checkExtension () (0, vec16 c.nameList) = some (.done (asciiLower c.host)) := by
    obtain ⟨rest, hscan⟩ := scan_nameList h hvalid
    have hlength := length_vec16 (show c.nameList.length < 65536 by omega) []
    have htake := take_self c.nameList []
    rw [append_nil] at hlength htake
    rw [checkExtension]
    simp only [hlength, append_nil, htake, hscan, bind_eq_bind, bind_some]
    rfl
  have hscan : scan extensions checkExtension () c.extensionList =
      some (.done (asciiLower c.host), c.later.flatMap encodeExtension) := by
    rw [extensionList, append_assoc, scan_flatMap _ hearlier fun e he => ?_]
    · refine scan_done (readExtension_encodeExtension (Nat.zero_lt_succ 65535) ?_ _) hname
      rw [vec16, length_append, length_be16]
      omega
    · rw [checkExtension, if_pos (c.earlier_kind e he).1]
  rw [serverName, extensionsOf_message h, bind_eq_bind, bind_some, hscan, bind_eq_bind, bind_some]

end

end ClientHello

/-! ## Records -/

/-- A handshake record with a part of the message, which can be empty. -/
structure Record where
  version : Byte × Byte
  fragment : List Byte

namespace Record

/-- The header of a handshake record. -/
def header (r : Record) : List Byte :=
  [22, r.version.1, r.version.2] ++ be16 r.fragment.length

/-- The record on the wire. -/
def encode (r : Record) : List Byte := r.header ++ r.fragment

/-- A record is read back. -/
theorem read_encode {r : Record} (h : r.fragment.length < 65536) (rest : List Byte) :
    records.read (r.encode ++ rest) = some (r.fragment, rest) := by
  refine readRecord_append rfl rfl ?_ rest
  exact (fromBe16_be16 h).symm

end Record

/-- The bytes of some records. -/
def wire (l : List Record) : List Byte := l.flatMap Record.encode

/-- The parts of the message in some records, put together. -/
def joined (l : List Record) : List Byte := l.flatMap Record.fragment

namespace ClientHello

variable {c : ClientHello}

section

variable (h : c.message.length ≤ 32768)

include h

variable {hello : List Byte}

/-- The handshake header tells the length of the message. -/
theorem size_message (hlen : 4 ≤ hello.length) (hpre : hello <+: c.message) :
    size hello + 4 = c.message.length := by
  have hbody : c.body.length < 256 ^ 3 ∧ c.message.length = c.body.length + 4 := by
    simp only [message, length_append, length_singleton, length_beBytes] at h ⊢
    omega
  have hsame : (hello.drop 1).take 3 = beBytes 3 c.body.length := by
    obtain ⟨t, ht⟩ := hpre
    have hdrop : hello.drop 1 ++ t = beBytes 3 c.body.length ++ c.body := by
      rw [← drop_append_of_le_length (by omega), ht]
      rfl
    have htake := congrArg (List.take 3) hdrop
    rwa [take_append_of_le_length (by rw [length_drop]; omega),
      take_left' (length_beBytes 3 _)] at htake
  rw [size, hsame, fromBe_beBytes hbody.1]
  omega

/-- A beginning of the message is complete only when it is all of it. -/
theorem whole_iff_eq_message (hpre : hello <+: c.message) :
    whole hello = true ↔ hello = c.message := by
  rw [whole_iff]
  constructor
  · rintro ⟨hlen, hsize⟩
    rw [size_message h hlen hpre] at hsize
    exact hpre.eq_of_length_le hsize
  · rintro rfl
    have hlen : 4 ≤ c.message.length := by
      simp only [message, length_append, length_singleton, length_beBytes]
      omega
    exact ⟨hlen, (size_message h hlen hpre).le⟩

/-- A record adds its fragment, and the last one completes the message. -/
theorem addRecord_message {fragment : List Byte} (hpre : hello ++ fragment <+: c.message) :
    addRecord hello fragment = some (if hello ++ fragment = c.message
      then .done (hello ++ fragment) else .next (hello ++ fragment)) := by
  have hle := hpre.length_le
  rw [addRecord, if_neg (by omega)]
  by_cases hwhole : hello ++ fragment = c.message
  · rw [if_pos ((whole_iff_eq_message h hpre).mpr hwhole), if_pos hwhole]
  · rw [if_neg (fun hw => hwhole ((whole_iff_eq_message h hpre).mp hw)), if_neg hwhole]

/-- Records that do not complete the message are passed. -/
theorem scan_wire {l : List Record} (hpre : hello ++ joined l <+: c.message)
    (hne : hello ++ joined l ≠ c.message) (rest : List Byte) :
    scan records addRecord hello (wire l ++ rest) =
      scan records addRecord (hello ++ joined l) rest := by
  induction l generalizing hello with
  | nil => simp [wire, joined]
  | cons r l ih =>
    simp only [joined, wire, flatMap_cons, ← append_assoc] at hpre hne ⊢
    have hmore := hpre.length_le
    have hfirst : hello ++ r.fragment <+: c.message := (prefix_append _ _).trans hpre
    have hnot : hello ++ r.fragment ≠ c.message := by
      intro heq
      have hlen := congrArg List.length heq
      rw [length_append] at hmore
      -- The message would be followed by nothing but empty records.
      have hnil : (l.flatMap Record.fragment).length = 0 := by omega
      exact hne (by rw [length_eq_zero_iff.mp hnil, append_nil, heq])
    have hread := Record.read_encode (r := r) (by
      simp only [length_append] at hmore
      omega) (l.flatMap Record.encode ++ rest)
    have hstep := addRecord_message h hfirst
    rw [if_neg hnot] at hstep
    rw [append_assoc, scan_next hread hstep]
    exact ih hpre hne

/-- The message is put together from any records. -/
theorem scan_records {init : List Record} {last : Record}
    (hinit : joined init ≠ c.message) (hall : joined init ++ last.fragment = c.message)
    (rest : List Byte) :
    scan records addRecord [] (wire (init ++ [last]) ++ rest) =
      some (.done c.message, rest) := by
  have hwire : wire (init ++ [last]) ++ rest = wire init ++ (last.encode ++ rest) := by
    simp [wire]
  have hread := Record.read_encode (r := last) (by
    have hlen := congrArg List.length hall
    rw [length_append] at hlen
    omega) rest
  have hwhole : joined init ++ last.fragment <+: c.message := by rw [hall]
  have hstep := addRecord_message h hwhole
  rw [if_pos hall, hall] at hstep
  have hfirst : [] ++ joined init <+: c.message := (prefix_append _ _).trans hwhole
  rw [hwire, scan_wire h hfirst hinit]
  exact scan_done hread hstep

end

/-- One record completes the message. -/
theorem exists_last {l : List Record} (h : joined l = c.message) :
    ∃ init last rest, l = init ++ last :: rest ∧ joined init ≠ c.message ∧
      joined init ++ last.fragment = c.message := by
  induction l using List.reverseRecOn with
  | nil => cases h
  | append_singleton l r ih =>
    have hjoin : joined l ++ r.fragment = c.message := by
      rw [← h]
      simp [joined]
    by_cases hl : joined l = c.message
    · obtain ⟨init, last, rest, rfl, hinit, hall⟩ := ih hl
      exact ⟨init, last, rest ++ [r], by simp, hinit, hall⟩
    · exact ⟨l, r, [], rfl, hl, hjoin⟩

end ClientHello

/-- **Nothing is found before the last record is complete.** -/
theorem tls_strict {c : ClientHello} (h : c.message.length ≤ 32768) {init : List Record}
    {last : Record} (hinit : joined init ≠ c.message)
    (hall : joined init ++ last.fragment = c.message) {p : List Byte}
    (hp : p <+: wire (init ++ [last])) (hne : p ≠ wire (init ++ [last])) : tls p = none := by
  rw [eq_none_iff_forall_ne_some]
  intro host hfound
  obtain ⟨hello, rest, hscan, -⟩ := done_of_tls hfound
  obtain ⟨t, ht⟩ := hp
  -- The loop that was left in `p` is left in the same way with the missing bytes behind it.
  have hlate := scan_append records_stable t hscan
  have hall := ClientHello.scan_records h hinit hall []
  rw [append_nil, ← ht, hlate, Option.some.injEq, Prod.mk.injEq] at hall
  obtain ⟨-, ht'⟩ := append_eq_nil_iff.mp hall.2
  exact hne (by rw [← ht, ht', append_nil])

/-- Sniffing finds the host of every ClientHello, however its message is split into records and
whatever follows them, and finds nothing before the completing record is there. A host once
found is never found otherwise, and it is valid. -/
theorem tls_clientHello :
    (∀ c : ClientHello, c.message.length ≤ 32768 → validHost c.host = true →
      ∀ l : List Record, joined l = c.message →
        (∀ s, tls (wire l ++ s) = some (asciiLower c.host)) ∧
        ∀ init last rest, l = init ++ last :: rest → joined init ≠ c.message →
          joined init ++ last.fragment = c.message →
          ∀ p, p <+: wire (init ++ [last]) → p ≠ wire (init ++ [last]) → tls p = none) ∧
    (∀ p s x, tls p = some x → tls (p ++ s) = some x) ∧
    ∀ p x, tls p = some x → validHost x = true := by
  refine ⟨?_, fun p s x h => tls_append h s, fun p x h => validHost_of_tls h⟩
  intro c hlen hvalid l hl
  constructor
  · intro s
    obtain ⟨init, last, rest, rfl, hinit, hall⟩ := ClientHello.exists_last hl
    have hwire : wire (init ++ last :: rest) ++ s =
        wire (init ++ [last]) ++ (wire rest ++ s) := by
      simp [wire]
    rw [hwire, tls_of_done (ClientHello.scan_records hlen hinit hall _)]
    exact ClientHello.serverName_message hlen hvalid
  · intro init last rest _ hinit hall p hp hne
    exact tls_strict hlen hinit hall hp hne

/-- A short message, for the host `A.b`. -/
def shortHello : ClientHello where
  start := List.replicate 34 0
  session := []
  suites := [19, 1]
  compression := [0]
  earlier := [(10, [0])]
  others := []
  host := "A.b"
  furtherNames := []
  later := []
  length_start := List.length_replicate
  length_session := by decide
  length_compression := by decide
  earlier_kind := List.forall_mem_singleton.mpr (by decide)
  others_kind := List.forall_mem_nil _

/-- The message in two records, with a third one behind it. -/
theorem tls_clientHello_short :
    tls (wire [⟨(3, 1), shortHello.message.take 10⟩, ⟨(3, 1), shortHello.message.drop 10⟩] ++
      [20, 3, 3, 0, 1, 1]) = some "a.b".toList := by
  have hlen : shortHello.message.length ≤ 32768 := by decide +kernel
  have hvalid : validHost shortHello.host = true := by decide +kernel
  have hjoined : joined [⟨(3, 1), shortHello.message.take 10⟩,
      ⟨(3, 1), shortHello.message.drop 10⟩] = shortHello.message := by
    simp [joined]
  exact (tls_clientHello.1 shortHello hlen hvalid _ hjoined).1 _

end ClashMeta.Sniff
