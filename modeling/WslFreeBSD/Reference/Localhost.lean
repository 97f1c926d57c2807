import WslFreeBSD.Lib.CText
import WslFreeBSD.Protocol.PortRelay

/-!
# The reference port relay

The part of `localhost.cpp` that turns `/proc/net/tcp` and `/proc/net/tcp6` into relay messages:
`ParseTcpFile` and `SockToRelayMessage`. A file is the list of its lines, as `getline` returns
them. The first field of a line that matters, the local address, is read with `strtol` and
`memcpy` at fixed offsets, so the model keeps the memory after a field.

`tcpRow` is what the kernel prints for a listening socket, and `parseTcpFile_tcpRow` what becomes
of it.
-/

namespace WslFreeBSD.Reference

open Lib Protocol

/-! ## Reading the file -/

/-- The address families of the reference platform. -/
inductive Family where
  | inet
  | inet6
  deriving DecidableEq, Repr

def Family.number : Family → UInt16
  | .inet => 2
  | .inet6 => 10

/-- The fields of `sockaddr_in` and `sockaddr_in6` that are used. -/
structure SockAddr where
  family : Family
  port : UInt16
  addr : Addr
  deriving DecidableEq, Repr

/-- The conversion of a `long` to a field of 32 or 16 bits. -/
def toUInt32 (n : Int) : UInt32 := UInt32.ofNat (n % 2 ^ 32).toNat

def toUInt16 (n : Int) : UInt16 := UInt16.ofNat (n % 2 ^ 16).toNat

/-- The four characters of part `part` of an IPv6 address, as a number. -/
def ipv6Part (mem : Bytes) (part : Nat) : UInt32 :=
  toUInt32 (strtolHex ((mem.drop (part * 4)).take 4))

/-- The local address of a line; `mem` is the memory at the field. -/
def parseLocal (family : Family) (field mem : Bytes) : Option SockAddr :=
  if 58 ∈ field then
    let port := toInt32 (strtolHex ((field.dropWhile (· ≠ 58)).drop 1))
    if port = 0 then none
    else
      match family with
      | .inet => some ⟨.inet, toUInt16 port, { w0 := toUInt32 (strtolHex field) }⟩
      | .inet6 => some ⟨.inet6, toUInt16 port,
          ⟨ipv6Part mem 0, ipv6Part mem 1, ipv6Part mem 2, ipv6Part mem 3⟩⟩
  else none

def TCP_LISTEN : Int := 10

/-- The loop over the fields of a line, from field `index` on. Field 1 is the local address, a
line without a usable one is left at once; field 3 is the status, where the loop ends. -/
def parseFields (family : Family) : Nat → Option SockAddr → List (Bytes × Bytes) → Option SockAddr
  | _, _, [] => none
  | index, sock, (field, after) :: rest =>
    if index = 1 then
      match parseLocal family field (field ++ after) with
      | none => none
      | some sock => parseFields family (index + 1) (some sock) rest
    else if index = 3 then
      if toInt32 (strtolHex field) = TCP_LISTEN then sock else none
    else parseFields family (index + 1) sock rest

def parseLine (family : Family) (line : Bytes) : Option SockAddr :=
  parseFields family 0 none (fields line.length line)

/-- `ParseTcpFile`; a file without a header line is an error. -/
def parseTcpFile (family : Family) : List Bytes → Option (List SockAddr)
  | [] => none
  | _ :: lines => some (lines.filterMap (parseLine family))

/-! ## The message -/

/-- `SockToRelayMessage`, with the type that `StartHostListener` or `StopHostListener` sets and
the sequence number of the channel. -/
def sockToRelayMessage (type seq : Nat) (sock : SockAddr) : Bytes :=
  portListenerRelay type seq sock.family.number sock.port sock.addr

/-! ## What the kernel prints -/

/-- A listening socket: its local address, in the words of the kernel, and its port in host byte
order. A socket that listens has a port. -/
structure ListenSocket where
  family : Family
  addr : Addr
  port : UInt16
  port_ne : port ≠ 0
  deriving DecidableEq, Repr

def hexAddr (family : Family) (addr : Addr) : Bytes :=
  match family with
  | .inet => hexFormat 8 addr.w0.toNat
  | .inet6 => hexFormat 8 addr.w0.toNat ++ (hexFormat 8 addr.w1.toNat ++
      (hexFormat 8 addr.w2.toNat ++ hexFormat 8 addr.w3.toNat))

/-- `%08X:%04X`, the address words repeated for IPv6. -/
def hexEndpoint (family : Family) (addr : Addr) (port : UInt16) : Bytes :=
  hexAddr family addr ++ 58 :: hexFormat 4 port.toNat

/-- The parts of a row that do not depend on the socket: the blanks and the digits of the slot
number, and the columns after the status. -/
structure RowLayout where
  pad : Nat := 3
  first : Fin 10 := 0
  digits : List (Fin 10) := []
  columns : Bytes := []
  deriving DecidableEq, Repr

def RowLayout.slot (row : RowLayout) : Bytes := (row.first :: row.digits).map (decDigit ·.val)

/-- The row of a listening socket: the slot, the local and the remote endpoint, the status `0A`
and the remaining columns. -/
def tcpRow (row : RowLayout) (sock : ListenSocket) : Bytes :=
  List.replicate row.pad 32 ++ (row.slot ++ [58]) ++ 32 ::
    (hexEndpoint sock.family sock.addr sock.port ++ 32 ::
      (hexEndpoint sock.family {} 0 ++ 32 :: ([48, 65] ++ 32 :: row.columns)))

/-! ## What is read of it -/

/-- What `ParseTcpFile` makes of a listening socket: the port stays in host byte order, and the
parts of an IPv6 address are the halves of its first two words. -/
def ListenSocket.parsed (sock : ListenSocket) : SockAddr where
  family := sock.family
  port := sock.port
  addr :=
    match sock.family with
    | .inet => { w0 := sock.addr.w0 }
    | .inet6 => ⟨sock.addr.w0 / 65536, sock.addr.w0 % 65536, sock.addr.w1 / 65536,
        sock.addr.w1 % 65536⟩

theorem toUInt32_toNat (n : Nat) (w : UInt32) (h : n = w.toNat) : toUInt32 n = w := by
  have hw := w.toNat_lt
  have hmod : ((n : Int) % 2 ^ 32).toNat = w.toNat := by omega
  rw [toUInt32, hmod]
  exact UInt32.ofNat_toNat

theorem toInt32_toNat (w : UInt16) : toInt32 w.toNat = w.toNat := by
  have hw := w.toNat_lt
  unfold toInt32
  omega

theorem toUInt16_toNat (w : UInt16) : toUInt16 w.toNat = w := by
  have hw := w.toNat_lt
  have hmod : ((w.toNat : Int) % 2 ^ 16).toNat = w.toNat := by omega
  rw [toUInt16, hmod]
  exact UInt16.ofNat_toNat

theorem mem_hexAddr {family : Family} {addr : Addr} {c : UInt8} (h : c ∈ hexAddr family addr) :
    ∃ d, d < 16 ∧ c = hexDigit d := by
  cases family with
  | inet => exact mem_hexFormat h
  | inet6 =>
    simp only [hexAddr, List.mem_append] at h
    rcases h with h | h | h | h <;> exact mem_hexFormat h

theorem hexEndpoint_dropWhile (family : Family) (addr : Addr) (port : UInt16) :
    (hexEndpoint family addr port).dropWhile (· ≠ 58) = 58 :: hexFormat 4 port.toNat := by
  unfold hexEndpoint
  rw [List.dropWhile_append_of_pos]
  · simp
  · intro c hc
    obtain ⟨d, hd, rfl⟩ := mem_hexAddr hc
    obtain ⟨-, -, -, -, -, -, hcolon, -⟩ := hexDigit_spec hd
    simpa using hcolon

theorem hexEndpoint_sep {family : Family} {addr : Addr} {port : UInt16} {c : UInt8}
    (h : c ∈ hexEndpoint family addr port) : isSep c = false := by
  have hdigit : ∀ d, d < 16 → isSep (hexDigit d) = false := by decide
  simp only [hexEndpoint, List.mem_append, List.mem_cons] at h
  rcases h with h | rfl | h
  · obtain ⟨d, hd, rfl⟩ := mem_hexAddr h
    exact hdigit d hd
  · rfl
  · obtain ⟨d, hd, rfl⟩ := mem_hexFormat h
    exact hdigit d hd

theorem strtolHex_port (port : UInt16) : strtolHex (hexFormat 4 port.toNat) = port.toNat := by
  have hp := port.toNat_lt
  have h := strtolHex_hexFormat (k := 2) (n := port.toNat) (by decide) endsNumber_nil
  rw [List.append_nil, Nat.mod_eq_of_lt (by omega)] at h
  exact h

theorem strtolHex_word (w : UInt32) (l : Bytes) :
    strtolHex (hexFormat 8 w.toNat ++ 58 :: l) = w.toNat := by
  have hw := w.toNat_lt
  have h := strtolHex_hexFormat (k := 6) (n := w.toNat) (by decide) (endsNumber_colon l)
  rw [Nat.mod_eq_of_lt (by omega)] at h
  exact h

theorem strtolHex_upper (w : UInt32) :
    toUInt32 (strtolHex (hexFormat 4 (w.toNat / 65536))) = w / 65536 := by
  have hw := w.toNat_lt
  have h := strtolHex_hexFormat (k := 2) (n := w.toNat / 65536) (by decide) endsNumber_nil
  rw [List.append_nil, Nat.mod_eq_of_lt (by omega)] at h
  rw [h]
  exact toUInt32_toNat _ _ (by rw [UInt32.toNat_div]; rfl)

theorem strtolHex_lower (w : UInt32) :
    toUInt32 (strtolHex (hexFormat 4 w.toNat)) = w % 65536 := by
  have h := strtolHex_hexFormat (k := 2) (n := w.toNat) (by decide) endsNumber_nil
  rw [List.append_nil] at h
  rw [h]
  exact toUInt32_toNat _ _ (by rw [UInt32.toNat_mod]; rfl)

theorem ipv6Part_hexEndpoint (addr : Addr) (port : UInt16) (after : Bytes) :
    ipv6Part (hexEndpoint .inet6 addr port ++ after) 0 = addr.w0 / 65536 ∧
      ipv6Part (hexEndpoint .inet6 addr port ++ after) 1 = addr.w0 % 65536 ∧
      ipv6Part (hexEndpoint .inet6 addr port ++ after) 2 = addr.w1 / 65536 ∧
      ipv6Part (hexEndpoint .inet6 addr port ++ after) 3 = addr.w1 % 65536 := by
  have hsplit : ∀ w : UInt32, hexFormat 8 w.toNat =
      hexFormat 4 (w.toNat / 65536) ++ hexFormat 4 w.toNat := fun w => hexFormat_add 4 4 w.toNat
  refine ⟨?_, ?_, ?_, ?_⟩
  · rw [ipv6Part, hexEndpoint, hexAddr, hsplit addr.w0, ← strtolHex_upper]
    rfl
  · rw [ipv6Part, hexEndpoint, hexAddr, hsplit addr.w0, ← strtolHex_lower]
    rfl
  · rw [ipv6Part, hexEndpoint, hexAddr, hsplit addr.w1, ← strtolHex_upper]
    rfl
  · rw [ipv6Part, hexEndpoint, hexAddr, hsplit addr.w1, ← strtolHex_lower]
    rfl

theorem parseLocal_hexEndpoint (sock : ListenSocket) (after : Bytes) :
    parseLocal sock.family (hexEndpoint sock.family sock.addr sock.port)
      (hexEndpoint sock.family sock.addr sock.port ++ after) = some sock.parsed := by
  have hmem : 58 ∈ hexEndpoint sock.family sock.addr sock.port := by simp [hexEndpoint]
  have hport : toInt32 (strtolHex
      (((hexEndpoint sock.family sock.addr sock.port).dropWhile (· ≠ 58)).drop 1)) =
      sock.port.toNat := by
    rw [hexEndpoint_dropWhile]
    change toInt32 (strtolHex (hexFormat 4 sock.port.toNat)) = _
    rw [strtolHex_port, toInt32_toNat]
  have hne : ((sock.port.toNat : Nat) : Int) ≠ 0 := by
    intro h
    exact sock.port_ne (UInt16.toNat_inj.mp (by simpa using h))
  unfold parseLocal
  rw [if_pos hmem]
  dsimp only
  rw [hport, if_neg hne, toUInt16_toNat]
  obtain ⟨family, addr, port, port_ne⟩ := sock
  cases family with
  | inet =>
    have hword : strtolHex (hexEndpoint .inet addr port) = addr.w0.toNat := strtolHex_word _ _
    simp only [hword, toUInt32_toNat addr.w0.toNat addr.w0 rfl]
    rfl
  | inet6 =>
    obtain ⟨h0, h1, h2, h3⟩ := ipv6Part_hexEndpoint addr port after
    simp only [h0, h1, h2, h3]
    rfl

theorem slot_sep (row : RowLayout) : ∀ c ∈ row.slot ++ [58], isSep c = false := by
  have hdigit : ∀ d : Fin 10, isSep (decDigit d.val) = false := by decide
  intro c hc
  rcases List.mem_append.mp hc with h | h
  · obtain ⟨d, -, rfl⟩ := List.mem_map.mp h
    exact hdigit d
  · rw [List.mem_singleton.mp h]
    rfl

theorem fields_tcpRow (row : RowLayout) (sock : ListenSocket) : ∃ a₀ a₁ a₂ a₃ rest,
    fields (tcpRow row sock).length (tcpRow row sock) =
      (row.slot ++ [58], a₀) :: (hexEndpoint sock.family sock.addr sock.port, a₁) ::
        (hexEndpoint sock.family {} 0, a₂) :: ([48, 65], a₃) :: rest := by
  obtain ⟨n, hn⟩ : ∃ n, (tcpRow row sock).length = n + 4 := by
    refine Nat.exists_eq_add_of_le' ?_
    simp only [tcpRow, List.length_append, List.length_cons]
    omega
  have hlocal : hexEndpoint sock.family sock.addr sock.port ≠ [] := by simp [hexEndpoint]
  have hremote : hexEndpoint sock.family {} 0 ≠ [] := by simp [hexEndpoint]
  rw [hn, tcpRow, fields_append (by simp) (slot_sep row)]
  have h1 := fun rest => @fields_append (n + 2) 0 _ hlocal (fun c => hexEndpoint_sep) rest
  have h2 := fun rest => @fields_append (n + 1) 0 _ hremote (fun c => hexEndpoint_sep) rest
  have h3 := fun rest => @fields_append n 0 [48, 65] (by simp) (by simp [isSep]) rest
  simp only [List.replicate_zero, List.nil_append] at h1 h2 h3
  rw [h1, h2, h3]
  exact ⟨_, _, _, _, _, rfl⟩

theorem parseLine_tcpRow (row : RowLayout) (sock : ListenSocket) :
    parseLine sock.family (tcpRow row sock) = some sock.parsed := by
  obtain ⟨a₀, a₁, a₂, a₃, rest, hfields⟩ := fields_tcpRow row sock
  have hstatus : toInt32 (strtolHex [48, 65]) = TCP_LISTEN := by decide
  rw [parseLine, hfields]
  simp [parseFields, parseLocal_hexEndpoint, hstatus]

/-- The reference implementation finds every listening socket, with `ListenSocket.parsed`. -/
theorem parseTcpFile_tcpRow (heading : Bytes) (row : RowLayout) (sock : ListenSocket) :
    parseTcpFile sock.family [heading, tcpRow row sock] = some [sock.parsed] := by
  rw [parseTcpFile, List.filterMap_cons_some (parseLine_tcpRow row sock)]
  rfl

end WslFreeBSD.Reference
