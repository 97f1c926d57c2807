import WslFreeBSD.Lib.Scanf
import WslFreeBSD.Ports.Entry
import WslFreeBSD.Reference.Localhost

/-!
# Relay messages on the wire

`port_tracker_send_relay` fills an `LX_GNS_PORT_LISTENER_RELAY` from an entry, with the port in
network byte order. The header of `port_tracker.h` says that this is what the reference
implementation sends. For a listening socket the entry comes from the kernel's connection list,
or in the Linux test harness from the row of `/proc/net/tcp` that `parse_proc_net_tcp` reads.

The reference sends the port as `strtol` has returned it and takes four digits instead of eight
for a word of an IPv6 address; the number of `AF_INET6` is that of Linux. So the messages agree
exactly for ports with two equal bytes, and for IPv6 only for the wildcard address on Linux
(`sameRelay_iff`).
-/

namespace WslFreeBSD.Ports

open Lib Protocol Reference

/-! ## Sending -/

/-- The message of `port_tracker_send_relay`. -/
def portTrackerSendRelay (type : Nat) (e : PortEntry) (seq : Nat) : Bytes :=
  portListenerRelay type seq e.family (htons e.port) e.addr

/-! ## The entry of a socket -/

/-- `" %*d: %8x:%4x %*8x:%*4x %2x"`. -/
def tcpFormat : List Directive :=
  [.space, .skipInt, .char 58, .space, .hex 8 true, .char 58, .hex 4 true, .space, .hex 8 false,
    .char 58, .hex 4 false, .space, .hex 2 true]

/-- `" %*d: %32[0-9A-Fa-f]:%4x %*32[0-9A-Fa-f]:%*4x %2x"`. -/
def tcp6Format : List Directive :=
  [.space, .skipInt, .char 58, .space, .hexSet 32 true, .char 58, .hex 4 true, .space,
    .hexSet 32 false, .char 58, .hex 4 false, .space, .hex 2 true]

/-- Word `i` of an address of 32 digits: `strtoul` on eight of them. -/
def procWord (addrHex : Bytes) (i : Nat) : UInt32 :=
  UInt32.ofNat (hexAcc 0 ((addrHex.drop (i * 8)).take 8))

/-- The entry that `parse_proc_net_tcp` makes of a line, before the filter. -/
def procEntry (family : Family) (line : Bytes) : Option PortEntry :=
  match family with
  | .inet =>
    match sscanf tcpFormat line with
    | [.number localIp, .number localPort, .number state] =>
      if state ≠ 0x0A then none
      else if localPort = 0 then none
      else some ⟨AF_INET, UInt16.ofNat localPort, { w0 := UInt32.ofNat localIp }⟩
    | _ => none
  | .inet6 =>
    match sscanf tcp6Format line with
    | [.text addrHex, .number localPort, .number state] =>
      if state ≠ 0x0A then none
      else if localPort = 0 then none
      else some ⟨Platform.linux.AF_INET6, UInt16.ofNat localPort,
        ⟨procWord addrHex 0, procWord addrHex 1, procWord addrHex 2, procWord addrHex 3⟩⟩
    | _ => none

/-- `parse_proc_net_tcp`, on the lines as `fgets` returns them. -/
def parseProcNetTcp (family : Family) : List Bytes → List PortEntry
  | [] => []
  | _ :: lines => (lines.filterMap (procEntry family)).filter (portEntryMatchesRelay .linux)

/-- The record of a listening socket in the connection list. -/
def pcbOf (sock : ListenSocket) : Pcb where
  lport := htons sock.port
  laddr := sock.addr

/-- The entry for a listening socket; in the test harness it comes from the row of the socket. -/
def trackedEntry (p : Platform) (row : RowLayout) (sock : ListenSocket) : Option PortEntry :=
  match p with
  | .freebsd => some (portEntryOfPcb .freebsd (sock.family = .inet6) (pcbOf sock))
  | .linux => procEntry sock.family (tcpRow row sock)

/-- Both implementations send the same message for a listening socket, up to the sequence
number. -/
def SameRelay (p : Platform) (type seq seq' : Nat) (heading : Bytes) (row : RowLayout)
    (sock : ListenSocket) : Prop :=
  ∃ e r, trackedEntry p row sock = some e ∧
    parseTcpFile sock.family [heading, tcpRow row sock] = some [r] ∧
    withoutSequence (portTrackerSendRelay type e seq) =
      withoutSequence (sockToRelayMessage type seq' r)

/-! ## Byte order -/

theorem toNat_htons (x : UInt16) : (htons x).toNat = x.toNat % 256 * 256 + x.toNat / 256 := by
  have hx := x.toNat_lt
  rw [htons, UInt16.toNat_ofNat']
  omega

theorem htons_htons (x : UInt16) : htons (htons x) = x := by
  have hx := x.toNat_lt
  apply UInt16.toNat_inj.mp
  rw [toNat_htons, toNat_htons]
  omega

theorem htons_eq_self_iff (x : UInt16) : htons x = x ↔ x.toNat % 256 = x.toNat / 256 := by
  have hx := x.toNat_lt
  rw [← UInt16.toNat_inj, toNat_htons]
  omega

/-! ## Reading a row in the test harness -/

def familyNumber (p : Platform) (family : Family) : UInt16 :=
  match family with
  | .inet => AF_INET
  | .inet6 => p.AF_INET6

def entryAddr (sock : ListenSocket) : Addr :=
  match sock.family with
  | .inet => { w0 := sock.addr.w0 }
  | .inet6 => sock.addr

theorem slot_head_not_space (row : RowLayout) (s : Bytes) :
    ∀ c ∈ (row.slot ++ s).head?, isSpace c = false := by
  intro c hc
  obtain rfl : decDigit row.first.val = c := by simpa [RowLayout.slot] using hc
  exact (decDigit_spec row.first).2.1

theorem hexAddr_head_not_space (family : Family) (addr : Addr) (s : Bytes) :
    ∀ c ∈ (hexAddr family addr ++ s).head?, isSpace c = false := by
  have hne : hexAddr family addr ≠ [] := by cases family <;> exact List.cons_ne_nil _ _
  obtain ⟨b, bs, hb⟩ := List.exists_cons_of_ne_nil hne
  intro c hc
  obtain rfl : b = c := by simpa [hb] using hc
  have hmem : b ∈ hexAddr family addr := by simp [hb]
  obtain ⟨d, hd, rfl⟩ := mem_hexAddr hmem
  exact (hexDigit_spec hd).2.1

/-- The conversion for an address and the value it stores. -/
def addrDirective (family : Family) (keep : Bool) : Directive :=
  match family with
  | .inet => .hex 8 keep
  | .inet6 => .hexSet 32 keep

def addrValue (family : Family) (addr : Addr) : Value :=
  match family with
  | .inet => .number addr.w0.toNat
  | .inet6 => .text (hexAddr .inet6 addr)

theorem scan_hexAddr (family : Family) (addr : Addr) (keep : Bool) (s : Bytes) :
    (addrDirective family keep).scan (hexAddr family addr ++ s) =
      some (if keep then [addrValue family addr] else [], s) := by
  cases family with
  | inet =>
    have hw := addr.w0.toNat_lt
    have hmod : addr.w0.toNat % 16 ^ (6 + 2) % 2 ^ 32 = addr.w0.toNat := by omega
    have h := scan_hexFormat 6 addr.w0.toNat keep s
    rw [hmod] at h
    exact h
  | inet6 =>
    refine scan_hexSet (t := hexAddr .inet6 addr) ?_ (List.cons_ne_nil _ _) ?_ keep s
    · simp [hexAddr]
    · intro c hc
      obtain ⟨d, hd, rfl⟩ := mem_hexAddr hc
      rw [isHexDigit, (hexDigit_spec hd).1]
      rfl

theorem sscanf_slot (ds : List Directive) (row : RowLayout) {s : Bytes}
    (hs : ∀ c ∈ s.head?, isSpace c = false) :
    sscanf (.space :: .skipInt :: .char 58 :: .space :: ds)
      (List.replicate row.pad 32 ++ (row.slot ++ [58]) ++ 32 :: s) = sscanf ds s := by
  have hassoc : List.replicate row.pad 32 ++ (row.slot ++ [58]) ++ 32 :: s =
      List.replicate row.pad 32 ++ (row.slot ++ 58 :: 32 :: s) := by simp
  have hslot : Directive.skipInt.scan (row.slot ++ 58 :: 32 :: s) = some ([], 58 :: 32 :: s) :=
    scan_skipInt row.first row.digits _
  have hspace : Directive.space.scan (32 :: s) = some ([], s) := @scan_space 1 s hs
  rw [hassoc, sscanf_cons (scan_space (slot_head_not_space row _)), sscanf_cons hslot,
    sscanf_cons (scan_char 58 _), sscanf_cons hspace]
  rfl

theorem sscanf_hexEndpoint (ds : List Directive) (family : Family) (addr : Addr) (port : UInt16)
    (keep : Bool) {s : Bytes} (hs : ∀ c ∈ s.head?, isSpace c = false) :
    sscanf (addrDirective family keep :: .char 58 :: .hex 4 keep :: .space :: ds)
      (hexEndpoint family addr port ++ 32 :: s) =
      (if keep then [addrValue family addr, .number port.toNat] else []) ++ sscanf ds s := by
  have hp := port.toNat_lt
  have hmod : port.toNat % 16 ^ (2 + 2) % 2 ^ 32 = port.toNat := by omega
  have hport := scan_hexFormat 2 port.toNat keep (32 :: s)
  rw [hmod] at hport
  have hspace : Directive.space.scan (32 :: s) = some ([], s) := @scan_space 1 s hs
  rw [hexEndpoint, List.append_assoc, sscanf_cons (scan_hexAddr family addr keep _),
    List.cons_append, sscanf_cons (scan_char 58 _), sscanf_cons hport, sscanf_cons hspace]
  cases keep <;> rfl

theorem sscanf_status (columns : Bytes) :
    sscanf [.hex 2 true] ([48, 65] ++ 32 :: columns) = [.number 10] :=
  sscanf_cons (scan_hexFormat 0 10 true (32 :: columns)) []

theorem sscanf_tcpRow (row : RowLayout) (sock : ListenSocket) :
    sscanf (.space :: .skipInt :: .char 58 :: .space :: addrDirective sock.family true :: .char 58 ::
        .hex 4 true :: .space :: addrDirective sock.family false :: .char 58 :: .hex 4 false ::
        .space :: [.hex 2 true]) (tcpRow row sock) =
      [addrValue sock.family sock.addr, .number sock.port.toNat, .number 10] := by
  have hlocal := hexAddr_head_not_space sock.family sock.addr
  have hremote := hexAddr_head_not_space sock.family {}
  have hstatus : ∀ c ∈ ([48, 65] ++ 32 :: row.columns).head?, isSpace c = false := by simp [isSpace]
  rw [tcpRow, sscanf_slot, sscanf_hexEndpoint, sscanf_hexEndpoint _ _ _ _ _ hstatus, sscanf_status]
  · rfl
  · rw [hexEndpoint, List.append_assoc]
    exact hremote _
  · rw [hexEndpoint, List.append_assoc]
    exact hlocal _

theorem procWord_eq (before after : Bytes) {addrHex : Bytes} {i : Nat} {w : UInt32}
    (hb : before.length = i * 8) (h : addrHex = before ++ (hexFormat 8 w.toNat ++ after)) :
    procWord addrHex i = w := by
  have hw := w.toNat_lt
  have hacc := hexAcc_hexFormat 0 8 w.toNat endsNumber_nil
  rw [List.append_nil, Nat.zero_mul, Nat.zero_add, Nat.mod_eq_of_lt (by omega)] at hacc
  rw [procWord, h, List.drop_left' hb, List.take_left' (length_hexFormat _ _), hacc]
  exact UInt32.ofNat_toNat

theorem trackedEntry_eq (p : Platform) (row : RowLayout) (sock : ListenSocket) :
    trackedEntry p row sock =
      some ⟨familyNumber p sock.family, sock.port, entryAddr sock⟩ := by
  have hscan := sscanf_tcpRow row sock
  have hport : sock.port.toNat ≠ 0 := by
    intro h
    exact sock.port_ne (UInt16.toNat_inj.mp h)
  cases p with
  | freebsd =>
    simp only [trackedEntry, portEntryOfPcb, pcbOf, htons_htons]
    cases hf : sock.family <;> simp [familyNumber, entryAddr, hf]
  | linux =>
    obtain ⟨family, addr, port, port_ne⟩ := sock
    simp only [trackedEntry]
    cases family with
    | inet =>
      have hvalues : sscanf tcpFormat (tcpRow row ⟨.inet, addr, port, port_ne⟩) =
          [.number addr.w0.toNat, .number port.toNat, .number 10] := hscan
      simp only [procEntry, hvalues]
      rw [if_neg (by decide), if_neg hport, UInt16.ofNat_toNat, UInt32.ofNat_toNat]
      rfl
    | inet6 =>
      have hvalues : sscanf tcp6Format (tcpRow row ⟨.inet6, addr, port, port_ne⟩) =
          [.text (hexAddr .inet6 addr), .number port.toNat, .number 10] := hscan
      simp only [procEntry, hvalues]
      have h0 : procWord (hexAddr .inet6 addr) 0 = addr.w0 := procWord_eq [] _ rfl rfl
      have h1 : procWord (hexAddr .inet6 addr) 1 = addr.w1 :=
        procWord_eq (hexFormat 8 addr.w0.toNat) _ (length_hexFormat _ _) rfl
      have h2 : procWord (hexAddr .inet6 addr) 2 = addr.w2 :=
        procWord_eq (hexFormat 8 addr.w0.toNat ++ hexFormat 8 addr.w1.toNat)
          (hexFormat 8 addr.w3.toNat) (by simp) (by simp [hexAddr])
      have h3 : procWord (hexAddr .inet6 addr) 3 = addr.w3 :=
        procWord_eq (hexFormat 8 addr.w0.toNat ++ (hexFormat 8 addr.w1.toNat ++
          hexFormat 8 addr.w2.toNat)) [] (by simp) (by simp [hexAddr])
      rw [if_neg (by decide), if_neg hport, UInt16.ofNat_toNat, h0, h1, h2, h3]
      rfl

/-- In the test harness the row of a listening socket becomes its entry, if the address is one
that is relayed. -/
theorem parseProcNetTcp_tcpRow (heading : Bytes) (row : RowLayout) (sock : ListenSocket) :
    parseProcNetTcp sock.family [heading, tcpRow row sock] =
      [⟨familyNumber .linux sock.family, sock.port, entryAddr sock⟩].filter
        (portEntryMatchesRelay .linux) := by
  have hentry : procEntry sock.family (tcpRow row sock) =
      some ⟨familyNumber .linux sock.family, sock.port, entryAddr sock⟩ :=
    trackedEntry_eq .linux row sock
  rw [parseProcNetTcp, List.filterMap_cons_some hentry]
  rfl

/-! ## Agreement -/

theorem halves_eq_iff (a : Addr) :
    a = ⟨a.w0 / 65536, a.w0 % 65536, a.w1 / 65536, a.w1 % 65536⟩ ↔ a = {} := by
  constructor
  · intro h
    obtain ⟨w0, w1, w2, w3⟩ := a
    simp only [Addr.mk.injEq] at h ⊢
    obtain ⟨h0, h1, h2, h3⟩ := h
    have hw0 : w0 = 0 := by
      have hnat := congrArg UInt32.toNat h0
      rw [UInt32.toNat_div] at hnat
      apply UInt32.toNat_inj.mp
      change w0.toNat = w0.toNat / 65536 at hnat
      change w0.toNat = 0
      omega
    have hw1 : w1 = 0 := by rw [h1, hw0]; rfl
    refine ⟨hw0, hw1, ?_, ?_⟩
    · rw [h2, hw1]
      rfl
    · rw [h3, hw1]
      rfl
  · rintro rfl
    rfl

/-- The tracker and the reference implementation agree on the message for a socket exactly when
the port has two equal bytes and the socket is an IPv4 socket, or an IPv6 socket of the Linux
test harness that is bound to the wildcard address. -/
theorem sameRelay_iff (p : Platform) (type seq seq' : Nat) (heading : Bytes) (row : RowLayout)
    (sock : ListenSocket) :
    SameRelay p type seq seq' heading row sock ↔
      sock.port.toNat % 256 = sock.port.toNat / 256 ∧
        (sock.family = .inet ∨ (p = .linux ∧ sock.addr = {})) := by
  have hagree : SameRelay p type seq seq' heading row sock ↔
      familyNumber p sock.family = sock.family.number ∧ htons sock.port = sock.port ∧
        entryAddr sock = sock.parsed.addr := by
    constructor
    · rintro ⟨e, r, he, hr, heq⟩
      rw [trackedEntry_eq] at he
      rw [parseTcpFile_tcpRow] at hr
      obtain rfl := Option.some.inj he
      obtain rfl : sock.parsed = r := by simpa using hr
      exact (withoutSequence_relay_eq_iff _ _ _ _ _ _ _ _ _).mp heq
    · intro h
      exact ⟨_, _, trackedEntry_eq p row sock, parseTcpFile_tcpRow heading row sock,
        (withoutSequence_relay_eq_iff _ _ _ _ _ _ _ _ _).mpr h⟩
  rw [hagree, htons_eq_self_iff]
  obtain ⟨family, addr, port, port_ne⟩ := sock
  cases family with
  | inet =>
    have hfam : familyNumber p .inet = Family.inet.number := rfl
    simp [hfam, entryAddr, ListenSocket.parsed]
  | inet6 =>
    have hfam : familyNumber p .inet6 = Family.inet6.number ↔ p = .linux := by
      cases p <;> decide
    have haddr := halves_eq_iff addr
    simp only [hfam, entryAddr, ListenSocket.parsed, haddr]
    constructor
    · rintro ⟨hp, hport, ha⟩
      exact ⟨hport, .inr ⟨hp, ha⟩⟩
    · rintro ⟨hport, h | ⟨hp, ha⟩⟩
      · cases h
      · exact ⟨hp, hport, ha⟩

/-- The message for 0.0.0.0:8080 carries the port bytes in the other order. -/
theorem port_order_differs :
    ¬ SameRelay .freebsd LxGnsMessagePortListenerRelayStart 0 0 [] {}
      ⟨.inet, {}, 8080, by decide⟩ := by
  rintro ⟨e, r, he, hr, heq⟩
  rw [trackedEntry_eq] at he
  rw [parseTcpFile_tcpRow] at hr
  obtain rfl := Option.some.inj he
  obtain rfl : ListenSocket.parsed ⟨.inet, {}, 8080, by decide⟩ = r := by simpa using hr
  revert heq
  decide

end WslFreeBSD.Ports
