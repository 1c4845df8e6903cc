import Taotu.Lib.BigEndian
import Taotu.Lib.Separated

/-!
# Taotu.Connection.NetAddress — socket addresses (`net_address.h`, `net_address.cc`)

A net address is a union of a `sockaddr_in` and a `sockaddr_in6`, here the 28 bytes
that both of them lie in. The family and the port stand at the same offsets in both
structures, so they are read back through `socket_address_` whichever was written.

`GetIp` converts the bytes from the beginning of the structure on, where the family
and the port stand, and not those of its address field. The port is always read back.
The address is read back iff it happens to be made of these bytes
(`address_read_back_iff`).

`Inet` are `inet_pton` and `inet_ntop`, inverse to each other on the addresses.
-/

namespace Taotu

open Lib

/-! ## Model layer -/

def AF_INET : UInt16 := 2

def AF_INET6 : UInt16 := 10

/-- Memory of `n` bytes. -/
abbrev Bytes (n : ℕ) := { bs : List UInt8 // bs.length = n }

def Bytes.zero (n : ℕ) : Bytes n := ⟨List.replicate n 0, List.length_replicate⟩

/-- `inet_ntop` and `inet_pton` for both families. The text of an IPv6 address has a
colon in it, that of an IPv4 address has none, and both are as short as
`INET_ADDRSTRLEN` and `INET6_ADDRSTRLEN` say. -/
structure Inet where
  ntop4 : Bytes 4 → List Char
  pton4 : List Char → Option (Bytes 4)
  ntop6 : Bytes 16 → List Char
  pton6 : List Char → Option (Bytes 16)
  pton4_ntop4 : ∀ a, pton4 (ntop4 a) = some a
  pton6_ntop6 : ∀ a, pton6 (ntop6 a) = some a
  colon4 : ∀ a, ':' ∉ ntop4 a
  colon6 : ∀ a, ':' ∈ ntop6 a
  length4 : ∀ a, (ntop4 a).length < 16
  length6 : ∀ a, (ntop6 a).length < 46

/-- `htons`. -/
def htons (o : ByteOrder) (x : UInt16) : UInt16 := UInt16.ofNat (o.toBig 2 x.toNat)

structure SockaddrIn where
  sinFamily : UInt16
  sinPort : UInt16
  sinAddr : Bytes 4
  sinZero : Bytes 8
deriving DecidableEq, Repr

structure SockaddrIn6 where
  sin6Family : UInt16
  sin6Port : UInt16
  sin6Flowinfo : Bytes 4
  sin6Addr : Bytes 16
  sin6ScopeId : Bytes 4
deriving DecidableEq, Repr

/-- How both structures begin. -/
def sockaddrHead (o : ByteOrder) (family port : UInt16) : List UInt8 :=
  o.bytes 2 family.toNat ++ o.bytes 2 port.toNat

def SockaddrIn.bytes (o : ByteOrder) (sa : SockaddrIn) : List UInt8 :=
  sockaddrHead o sa.sinFamily sa.sinPort ++ (sa.sinAddr.val ++ sa.sinZero.val)

def SockaddrIn6.bytes (o : ByteOrder) (sa : SockaddrIn6) : List UInt8 :=
  sockaddrHead o sa.sin6Family sa.sin6Port ++
    (sa.sin6Flowinfo.val ++ (sa.sin6Addr.val ++ sa.sin6ScopeId.val))

/-- The union: `socket_address_` are its first 16 bytes, `socket_address6_` is all of it. -/
structure NetAddress where
  bytes : List UInt8
  size : bytes.length = 28

@[simp] theorem length_sockaddrHead (o : ByteOrder) (family port : UInt16) :
    (sockaddrHead o family port).length = 4 := by
  simp [sockaddrHead]

@[simp] theorem SockaddrIn.length_bytes (o : ByteOrder) (sa : SockaddrIn) :
    (sa.bytes o).length = 16 := by
  simp [SockaddrIn.bytes, sa.sinAddr.property, sa.sinZero.property]

@[simp] theorem SockaddrIn6.length_bytes (o : ByteOrder) (sa : SockaddrIn6) :
    (sa.bytes o).length = 28 := by
  simp [SockaddrIn6.bytes, sa.sin6Flowinfo.property, sa.sin6Addr.property,
    sa.sin6ScopeId.property]

namespace NetAddress

/-- Assignment to `socket_address_`. The rest of the union keeps what was there. -/
def setNetAddress (o : ByteOrder) (n : NetAddress) (sa : SockaddrIn) : NetAddress :=
  ⟨sa.bytes o ++ n.bytes.drop 16, by simp [n.size]⟩

/-- Assignment to `socket_address6_`. -/
def setNetAddress6 (o : ByteOrder) (sa : SockaddrIn6) : NetAddress :=
  ⟨sa.bytes o, sa.length_bytes o⟩

/-- `NetAddress(ip, port, use_ipv6)`; `n` is the memory it is constructed in. A text
that cannot be converted is logged and leaves the address zero. -/
def ofIp (o : ByteOrder) (inet : Inet) (n : NetAddress) (ip : List Char) (port : UInt16)
    (useIpv6 : Bool) : NetAddress :=
  if useIpv6 ∨ ':' ∈ ip then
    setNetAddress6 o ⟨AF_INET6, htons o port, Bytes.zero 4, (inet.pton6 ip).getD (Bytes.zero 16),
      Bytes.zero 4⟩
  else
    n.setNetAddress o ⟨AF_INET, htons o port, (inet.pton4 ip).getD (Bytes.zero 4), Bytes.zero 8⟩

/-- `socket_address_.sin_family`. -/
def getFamily (o : ByteOrder) (n : NetAddress) : UInt16 := UInt16.ofNat (o.word (n.bytes.take 2))

/-- `socket_address_.sin_port`. -/
def sinPort (o : ByteOrder) (n : NetAddress) : UInt16 :=
  UInt16.ofNat (o.word ((n.bytes.drop 2).take 2))

def getPort (o : ByteOrder) (n : NetAddress) : UInt16 := htons o (n.sinPort o)

/-- The first `k` bytes at the address of the union. -/
def front (n : NetAddress) (k : ℕ) (hk : k ≤ 28) : Bytes k :=
  ⟨n.bytes.take k, by rw [List.length_take, n.size, Nat.min_eq_left hk]⟩

/-- What `inet_ntop` leaves in the empty buffer `char ip[64]`. -/
def ipBuffer (text : List Char) : List Char := if text.length < 64 then text else []

def getIp (o : ByteOrder) (inet : Inet) (n : NetAddress) : List Char :=
  -- `&socket_address6_` and `&socket_address_` are passed, not their address fields
  if n.getFamily o = AF_INET6 then ipBuffer (inet.ntop6 (n.front 16 (by decide)))
  else if n.getFamily o = AF_INET then ipBuffer (inet.ntop4 (n.front 4 (by decide)))
  else []

/-! ## Conversions -/

section Conversions

variable {o : ByteOrder} {inet : Inet}

theorem toNat_htons (x : UInt16) : (htons o x).toNat = o.toBig 2 x.toNat := by
  have hlt : o.toBig 2 x.toNat < 65536 := by
    cases o with
    | big => exact x.toNat_lt
    | little =>
      have h := ofBeBytes_lt (beBytes 2 x.toNat).reverse
      rwa [List.length_reverse, length_beBytes] at h
  exact UInt16.toNat_ofNat_of_lt' hlt

/-- A converted port stands in memory most significant byte first. -/
theorem bytes_htons (x : UInt16) : o.bytes 2 (htons o x).toNat = beBytes 2 x.toNat := by
  rw [toNat_htons, o.bytes_toBig]

/-- Converting a word tells the number that its bytes in memory stand for. -/
theorem beBytes_htons (x : UInt16) : beBytes 2 (htons o x).toNat = o.bytes 2 x.toNat := by
  cases o with
  | big => rw [toNat_htons, ByteOrder.toBig, ByteOrder.bytes]
  | little =>
    have h := beBytes_ofBeBytes (beBytes 2 x.toNat).reverse
    rw [List.length_reverse, length_beBytes] at h
    rw [toNat_htons, ByteOrder.toBig, ByteOrder.bytes, h]

theorem ofNat_word_bytes (x : UInt16) : UInt16.ofNat (o.word (o.bytes 2 x.toNat)) = x := by
  have hlt : x.toNat < 256 ^ 2 := x.toNat_lt
  rw [o.word_bytes, Nat.mod_eq_of_lt hlt, UInt16.ofNat_toNat]

theorem htons_htons (x : UInt16) : htons o (htons o x) = x := by
  have hword : (htons o x).toNat = o.word (beBytes 2 x.toNat) := by
    have hlt : (htons o x).toNat < 256 ^ 2 := (htons o x).toNat_lt
    rw [← bytes_htons, o.word_bytes, Nat.mod_eq_of_lt hlt]
  have hlt : x.toNat < 256 ^ 2 := x.toNat_lt
  apply UInt16.toNat_inj.mp
  rw [toNat_htons, hword, o.toBig_word (length_beBytes 2 x.toNat), ofBeBytes_beBytes,
    Nat.mod_eq_of_lt hlt]

theorem ntop4_inj {a b : Bytes 4} : inet.ntop4 a = inet.ntop4 b ↔ a = b := by
  refine ⟨fun h => ?_, fun h => h ▸ rfl⟩
  have hpton := congrArg inet.pton4 h
  rwa [inet.pton4_ntop4, inet.pton4_ntop4, Option.some.injEq] at hpton

theorem ntop6_inj {a b : Bytes 16} : inet.ntop6 a = inet.ntop6 b ↔ a = b := by
  refine ⟨fun h => ?_, fun h => h ▸ rfl⟩
  have hpton := congrArg inet.pton6 h
  rwa [inet.pton6_ntop6, inet.pton6_ntop6, Option.some.injEq] at hpton

theorem ipBuffer_ntop4 (a : Bytes 4) : ipBuffer (inet.ntop4 a) = inet.ntop4 a :=
  if_pos (Nat.lt_trans (inet.length4 a) (by decide))

theorem ipBuffer_ntop6 (a : Bytes 16) : ipBuffer (inet.ntop6 a) = inet.ntop6 a :=
  if_pos (Nat.lt_trans (inet.length6 a) (by decide))

end Conversions

/-! ## Reading through the union -/

section Reading

variable {o : ByteOrder} (inet : Inet) {n : NetAddress} {family port : UInt16} {rest : List UInt8}

/-- Whichever structure was written, its family is read back. -/
theorem getFamily_of_head (h : n.bytes = sockaddrHead o family port ++ rest) :
    n.getFamily o = family := by
  have htake : n.bytes.take 2 = o.bytes 2 family.toNat := by
    rw [h, sockaddrHead, List.append_assoc]
    exact List.take_left' (o.length_bytes ..)
  rw [getFamily, htake, ofNat_word_bytes]

/-- Whichever structure was written, its port is read back. -/
theorem getPort_of_head (h : n.bytes = sockaddrHead o family port ++ rest) :
    n.getPort o = htons o port := by
  have hfield : (n.bytes.drop 2).take 2 = o.bytes 2 port.toNat := by
    rw [h, sockaddrHead, List.append_assoc, List.drop_left' (o.length_bytes ..)]
    exact List.take_left' (o.length_bytes ..)
  rw [getPort, sinPort, hfield, ofNat_word_bytes]

/-- The text of an IPv4 address is made from the family and the port. -/
theorem getIp_of_head4 (h : n.bytes = sockaddrHead o AF_INET port ++ rest) (a : Bytes 4) :
    n.getIp o inet = inet.ntop4 a ↔ a.val = sockaddrHead o AF_INET port := by
  have hfront : (n.front 4 (by decide)).val = sockaddrHead o AF_INET port := by
    change n.bytes.take 4 = _
    rw [h]
    exact List.take_left' (length_sockaddrHead ..)
  rw [getIp, getFamily_of_head h, if_neg (by decide), if_pos rfl, ipBuffer_ntop4, ntop4_inj,
    eq_comm, Subtype.ext_iff, hfront]

/-- What an address of 16 bytes is if it is read from 8 bytes before its own. -/
theorem shifted_eq_iff {x a : List UInt8} (hx : x.length = 8) :
    x ++ a.take 8 = a ↔ a = x ++ x := by
  refine ⟨fun h => ?_, fun h => ?_⟩
  · have hfirst : a.take 8 = x := by
      rw [← h]
      exact List.take_left' hx
    rw [← hfirst] at h ⊢
    exact h.symm
  · rw [h, List.take_left' hx]

/-- The text of an IPv6 address is made from the family, the port, the flow
information and the first half of the address. -/
theorem getIp_of_head6 {flowinfo scope : Bytes 4} {a : Bytes 16}
    (h : n.bytes = sockaddrHead o AF_INET6 port ++ (flowinfo.val ++ (a.val ++ scope.val))) :
    n.getIp o inet = inet.ntop6 a ↔
      a.val = (sockaddrHead o AF_INET6 port ++ flowinfo.val) ++
        (sockaddrHead o AF_INET6 port ++ flowinfo.val) := by
  have hlen : (sockaddrHead o AF_INET6 port ++ flowinfo.val).length = 8 := by
    simp [flowinfo.property]
  -- the address begins at offset 8, so `inet_ntop` sees its first half only
  have hfront : (n.front 16 (by decide)).val =
      (sockaddrHead o AF_INET6 port ++ flowinfo.val) ++ a.val.take 8 := by
    have htake : (a.val ++ scope.val).take 8 = a.val.take 8 :=
      List.take_append_of_le_length (by rw [a.property]; decide)
    change n.bytes.take 16 = _
    rw [h, ← List.append_assoc, List.take_append, hlen,
      List.take_of_length_le (by rw [hlen]; decide), htake]
  rw [getIp, getFamily_of_head h, if_pos rfl, ipBuffer_ntop6, ntop6_inj, Subtype.ext_iff, hfront]
  exact shifted_eq_iff hlen

end Reading

/-! ## Round trips -/

section RoundTrips

variable {o : ByteOrder} {inet : Inet} {n : NetAddress}

theorem setNetAddress_bytes (sa : SockaddrIn) : (n.setNetAddress o sa).bytes =
    sockaddrHead o sa.sinFamily sa.sinPort ++
      (sa.sinAddr.val ++ sa.sinZero.val ++ n.bytes.drop 16) :=
  List.append_assoc ..

theorem ofIp_ntop4 (a : Bytes 4) (port : UInt16) : ofIp o inet n (inet.ntop4 a) port false =
    n.setNetAddress o ⟨AF_INET, htons o port, a, Bytes.zero 8⟩ := by
  have hfamily : ¬ (false = true ∨ ':' ∈ inet.ntop4 a) := by
    rintro (h | h)
    · cases h
    · exact inet.colon4 a h
  rw [ofIp, if_neg hfamily, inet.pton4_ntop4, Option.getD_some]

theorem ofIp_ntop6 (a : Bytes 16) (port : UInt16) (useIpv6 : Bool) :
    ofIp o inet n (inet.ntop6 a) port useIpv6 =
      setNetAddress6 o ⟨AF_INET6, htons o port, Bytes.zero 4, a, Bytes.zero 4⟩ := by
  rw [ofIp, if_pos (.inr (inet.colon6 a)), inet.pton6_ntop6, Option.getD_some]

end RoundTrips

/-- The port of an address is read back, whether it was made from a text or from a
socket address. Its text is read back iff the address is made of the bytes the
structure begins with: family and port for IPv4, and twice the family, the port and
the flow information for IPv6. -/
theorem address_read_back_iff (o : ByteOrder) (inet : Inet) (n : NetAddress) :
    (∀ (a : Bytes 4) (port : UInt16),
      (ofIp o inet n (inet.ntop4 a) port false).getPort o = port ∧
      ((ofIp o inet n (inet.ntop4 a) port false).getIp o inet = inet.ntop4 a ↔
        a.val = o.bytes 2 AF_INET.toNat ++ beBytes 2 port.toNat)) ∧
    (∀ (a : Bytes 16) (port : UInt16) (useIpv6 : Bool),
      (ofIp o inet n (inet.ntop6 a) port useIpv6).getPort o = port ∧
      ((ofIp o inet n (inet.ntop6 a) port useIpv6).getIp o inet = inet.ntop6 a ↔
        a.val = (o.bytes 2 AF_INET6.toNat ++ beBytes 2 port.toNat ++ [0, 0, 0, 0]) ++
          (o.bytes 2 AF_INET6.toNat ++ beBytes 2 port.toNat ++ [0, 0, 0, 0]))) ∧
    (∀ sa : SockaddrIn, sa.sinFamily = AF_INET →
      beBytes 2 ((n.setNetAddress o sa).getPort o).toNat = o.bytes 2 sa.sinPort.toNat ∧
      ((n.setNetAddress o sa).getIp o inet = inet.ntop4 sa.sinAddr ↔
        sa.sinAddr.val = o.bytes 2 AF_INET.toNat ++ o.bytes 2 sa.sinPort.toNat)) ∧
    ∀ sa : SockaddrIn6, sa.sin6Family = AF_INET6 →
      beBytes 2 ((setNetAddress6 o sa).getPort o).toNat = o.bytes 2 sa.sin6Port.toNat ∧
      ((setNetAddress6 o sa).getIp o inet = inet.ntop6 sa.sin6Addr ↔
        sa.sin6Addr.val =
          (o.bytes 2 AF_INET6.toNat ++ o.bytes 2 sa.sin6Port.toNat ++ sa.sin6Flowinfo.val) ++
          (o.bytes 2 AF_INET6.toNat ++ o.bytes 2 sa.sin6Port.toNat ++ sa.sin6Flowinfo.val)) := by
  refine ⟨?_, ?_, ?_, ?_⟩
  · intro a port
    have hhead := setNetAddress_bytes (o := o) (n := n) ⟨AF_INET, htons o port, a, Bytes.zero 8⟩
    have hip := getIp_of_head4 inet hhead a
    rw [sockaddrHead, bytes_htons] at hip
    rw [ofIp_ntop4]
    exact ⟨(getPort_of_head hhead).trans (htons_htons port), hip⟩
  · intro a port useIpv6
    have hhead : (setNetAddress6 o
        ⟨AF_INET6, htons o port, Bytes.zero 4, a, Bytes.zero 4⟩).bytes = _ := rfl
    have hip := getIp_of_head6 inet hhead
    rw [sockaddrHead, bytes_htons] at hip
    rw [ofIp_ntop6]
    exact ⟨(getPort_of_head hhead).trans (htons_htons port), hip⟩
  · intro sa hfamily
    have hhead := setNetAddress_bytes (o := o) (n := n) sa
    rw [hfamily] at hhead
    exact ⟨by rw [getPort_of_head hhead, beBytes_htons], getIp_of_head4 inet hhead sa.sinAddr⟩
  · intro sa hfamily
    have hhead : (setNetAddress6 o sa).bytes = sa.bytes o := rfl
    rw [SockaddrIn6.bytes, hfamily] at hhead
    exact ⟨by rw [getPort_of_head hhead, beBytes_htons], getIp_of_head6 inet hhead⟩

/-! ## A presentation of addresses -/

section Presentation

open Separated

def writeDec (b : UInt8) : List Char := Nat.toDigits 10 b.toNat

/-- A number below 256 without leading zeros. -/
def readDec (field : List Char) : Option UInt8 :=
  let v := field.foldl (fun v c => 10 * v + (c.toNat - '0'.toNat)) 0
  if v < 256 ∧ Nat.toDigits 10 v = field then some (UInt8.ofNat v) else none

def writeHex (b : UInt8) : List Char := [Nat.digitChar (b.toNat / 16), Nat.digitChar (b.toNat % 16)]

def readHexDigit (c : Char) : Option ℕ := (List.range 16).find? (fun d => Nat.digitChar d = c)

def readHex (c d : Char) : Option UInt8 := do
  let high ← readHexDigit c
  let low ← readHexDigit d
  return UInt8.ofNat (16 * high + low)

def writeGroup (g : UInt8 × UInt8) : List Char := writeHex g.1 ++ writeHex g.2

def readGroup : List Char → Option (UInt8 × UInt8)
  | [a, b, c, d] => do
    let first ← readHex a b
    let second ← readHex c d
    return (first, second)
  | _ => none

def groups : List UInt8 → List (UInt8 × UInt8)
  | a :: b :: bs => (a, b) :: groups bs
  | _ => []

def ungroup (gs : List (UInt8 × UInt8)) : List UInt8 := gs.flatMap fun g => [g.1, g.2]

/-- What was read is an address if there is the right number of bytes. -/
def sized (n : ℕ) (bs : List UInt8) : Option (Bytes n) :=
  if h : bs.length = n then some ⟨bs, h⟩ else none

/-- A property of all bytes is checked on the numbers below 256. -/
theorem forall_byte {P : UInt8 → Prop} (h : ∀ k < 256, P (UInt8.ofNat k)) (b : UInt8) : P b := by
  have hb := h b.toNat b.toNat_lt
  rwa [UInt8.ofNat_toNat] at hb

theorem readDec_writeDec (b : UInt8) : readDec (writeDec b) = some b :=
  forall_byte (P := fun b => readDec (writeDec b) = some b) (by decide +kernel) b

theorem writeDec_chars (b : UInt8) : '.' ∉ writeDec b ∧ ':' ∉ writeDec b :=
  forall_byte (P := fun b => '.' ∉ writeDec b ∧ ':' ∉ writeDec b) (by decide +kernel) b

theorem length_writeDec (b : UInt8) : (writeDec b).length ≤ 3 :=
  forall_byte (P := fun b => (writeDec b).length ≤ 3) (by decide +kernel) b

theorem readHex_writeHex (b : UInt8) :
    readHex (Nat.digitChar (b.toNat / 16)) (Nat.digitChar (b.toNat % 16)) = some b :=
  forall_byte (P := fun b => readHex (Nat.digitChar (b.toNat / 16))
    (Nat.digitChar (b.toNat % 16)) = some b) (by decide +kernel) b

theorem writeHex_chars (b : UInt8) : ':' ∉ writeHex b :=
  forall_byte (P := fun b => ':' ∉ writeHex b) (by decide +kernel) b

theorem readGroup_writeGroup (g : UInt8 × UInt8) : readGroup (writeGroup g) = some g := by
  change (do
    let first ← readHex (Nat.digitChar (g.1.toNat / 16)) (Nat.digitChar (g.1.toNat % 16))
    let second ← readHex (Nat.digitChar (g.2.toNat / 16)) (Nat.digitChar (g.2.toNat % 16))
    return (first, second)) = some g
  rw [readHex_writeHex, readHex_writeHex]
  rfl

theorem writeGroup_chars (g : UInt8 × UInt8) : ':' ∉ writeGroup g := by
  rw [writeGroup, List.mem_append]
  rintro (h | h)
  · exact writeHex_chars g.1 h
  · exact writeHex_chars g.2 h

theorem sized_val {n : ℕ} (a : Bytes n) : sized n a.val = some a := dif_pos a.property

/-- An address of 16 bytes is eight groups, of which the first two are given here. -/
theorem groups_spec (a : Bytes 16) :
    ∃ g g' gs, groups a.val = g :: g' :: gs ∧ ungroup (groups a.val) = a.val ∧
      (groups a.val).length = 8 := by
  obtain ⟨bs, hbs⟩ := a
  match bs, hbs with
  | [_, _, _, _, _, _, _, _, _, _, _, _, _, _, _, _], _ => exact ⟨_, _, _, rfl, rfl, rfl⟩

/-- Dotted decimals for IPv4, eight groups of four hexadecimal digits for IPv6
(without the abbreviation of zeros). -/
def presentation : Inet where
  ntop4 a := text '.' writeDec a.val
  pton4 ip := (parse '.' readDec ip).bind (sized 4)
  ntop6 a := text ':' writeGroup (groups a.val)
  pton6 ip := (parse ':' readGroup ip).bind fun gs => sized 16 (ungroup gs)
  pton4_ntop4 a := by
    have hne : a.val ≠ [] := List.ne_nil_of_length_pos (by rw [a.property]; decide)
    rw [parse_text (fun b => (writeDec_chars b).1) readDec_writeDec hne]
    exact sized_val a
  pton6_ntop6 a := by
    obtain ⟨g, g', gs, hgroups, hungroup, -⟩ := groups_spec a
    rw [parse_text writeGroup_chars readGroup_writeGroup (by simp [hgroups]), Option.bind_some,
      hungroup]
    exact sized_val a
  colon4 a h := by
    rcases mem_text h with hsep | ⟨b, hb⟩
    · cases hsep
    · exact (writeDec_chars b).2 hb
  colon6 a := by
    obtain ⟨g, g', gs, hgroups, -⟩ := groups_spec a
    rw [hgroups]
    exact sep_mem_text g g' gs
  length4 a := by
    have hne : a.val ≠ [] := List.ne_nil_of_length_pos (by rw [a.property]; decide)
    have h : (text '.' writeDec a.val).length + 1 ≤ a.val.length * (3 + 1) :=
      length_text length_writeDec hne
    rw [a.property] at h
    omega
  length6 a := by
    obtain ⟨-, -, -, -, -, hlen⟩ := groups_spec a
    have hne : groups a.val ≠ [] := List.ne_nil_of_length_pos (by rw [hlen]; decide)
    have hw : ∀ g, (writeGroup g).length ≤ 4 := fun _ => le_rfl
    have h : (text ':' writeGroup (groups a.val)).length + 1 ≤ (groups a.val).length * (4 + 1) :=
      length_text hw hne
    rw [hlen] at h
    omega

end Presentation

/-- Fresh memory. -/
def blank : NetAddress := ⟨List.replicate 28 0, List.length_replicate⟩

/-- 2.0.0.80 is one of the addresses that survive with port 80 on a little-endian
machine. -/
theorem address_read_back_own_head :
    (ofIp .little presentation blank (presentation.ntop4 ⟨[2, 0, 0, 80], rfl⟩) 80 false).getIp
        .little presentation = presentation.ntop4 ⟨[2, 0, 0, 80], rfl⟩ :=
  ((address_read_back_iff .little presentation blank).1 ⟨[2, 0, 0, 80], rfl⟩ 80).2.mpr
    (by decide +kernel)

/-- The address 127.0.0.1 with port 80 is read back as 2.0.0.80 on a little-endian
machine: `AF_INET` is 2, and the port follows it. -/
theorem loopback_not_read_back :
    presentation.pton4 ['1', '2', '7', '.', '0', '.', '0', '.', '1'] = some ⟨[127, 0, 0, 1], rfl⟩ ∧
      presentation.ntop4 ⟨[127, 0, 0, 1], rfl⟩ = ['1', '2', '7', '.', '0', '.', '0', '.', '1'] ∧
      (ofIp .little presentation blank ['1', '2', '7', '.', '0', '.', '0', '.', '1'] 80
        false).getPort .little = 80 ∧
      (ofIp .little presentation blank ['1', '2', '7', '.', '0', '.', '0', '.', '1'] 80
        false).getIp .little presentation = ['2', '.', '0', '.', '0', '.', '8', '0'] := by
  decide +kernel

end NetAddress

end Taotu
