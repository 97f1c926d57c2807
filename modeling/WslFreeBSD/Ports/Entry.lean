import WslFreeBSD.Lib.SortedDiff
import WslFreeBSD.Protocol.PortRelay

/-!
# Listening ports

`struct port_entry`, its comparison and the snapshot of the listening ports (`port_tracker.h`).
An entry identifies a socket by family, port and local address; `port_entry_cmp` compares these
in turn, the address byte by byte. Seen as one list of numbers this is a comparison at the first
difference (`portEntryCmp_eq`), so it is lawful.

The records of the kernel's connection lists are taken as they are visited by the walk over the
`pcblist` buffer, in the order of the buffer.
-/

namespace WslFreeBSD.Ports

open Lib Protocol

/-! ## Byte order -/

/-- `htons` on a little-endian machine; `ntohs` is the same function. -/
def htons (x : UInt16) : UInt16 := UInt16.ofNat (x.toNat % 256 * 256 + x.toNat / 256)

/-- `htonl` on a little-endian machine; `ntohl` is the same function. -/
def htonl (x : UInt32) : UInt32 := UInt32.ofNat (leValue (leBytes 4 x.toNat).reverse)

/-! ## Entries -/

/-- `struct port_entry`. -/
structure PortEntry where
  family : UInt16
  port : UInt16
  addr : Addr
  deriving DecidableEq, Repr

/-- The systems the tracker is built for; the numbers of the address families differ. -/
inductive Platform where
  | freebsd
  | linux
  deriving DecidableEq, Repr

def AF_INET : UInt16 := 2

def Platform.AF_INET6 : Platform → UInt16
  | .freebsd => 28
  | .linux => 10

def INADDR_LOOPBACK : UInt32 := 0x7f000001

/-- `port_entry_matches_relay`: wildcard and loopback addresses. -/
def portEntryMatchesRelay (p : Platform) (e : PortEntry) : Bool :=
  if e.family = AF_INET then
    htonl e.addr.w0 = 0 || htonl e.addr.w0 = INADDR_LOOPBACK
  else if e.family = p.AF_INET6 then
    let allZero := e.addr.w0 ||| e.addr.w1 ||| e.addr.w2 ||| e.addr.w3 = 0
    let v4CompatLoopback := e.addr.w0 = 0 ∧ e.addr.w1 = 0 ∧ e.addr.w2 = htonl 0xFFFF ∧
      e.addr.w3 = htonl INADDR_LOOPBACK
    let v6Loopback := e.addr.w0 = 0 ∧ e.addr.w1 = 0 ∧ e.addr.w2 = 0 ∧ e.addr.w3 = htonl 1
    allZero ∨ v6Loopback ∨ v4CompatLoopback
  else false

/-- `memcmp` of two blocks of the same length. -/
def memcmp (a b : Bytes) : Int := firstDiff (a.map UInt8.toNat) (b.map UInt8.toNat)

/-- `port_entry_cmp`. -/
def portEntryCmp (a b : PortEntry) : Int :=
  if a.family ≠ b.family then (a.family.toNat : Int) - b.family.toNat
  else if a.port ≠ b.port then (a.port.toNat : Int) - b.port.toNat
  else memcmp a.addr.bytes b.addr.bytes

/-- `port_entry_dedup_sort`. -/
def portEntryDedupSort (l : List PortEntry) : List PortEntry := dedupSort portEntryCmp l

/-! ## The comparison -/

def PortEntry.key (e : PortEntry) : List Nat :=
  e.family.toNat :: e.port.toNat :: e.addr.bytes.map UInt8.toNat

theorem portEntryCmp_eq (a b : PortEntry) : portEntryCmp a b = firstDiff a.key b.key := by
  have hf : a.family ≠ b.family ↔ a.family.toNat ≠ b.family.toNat := UInt16.toNat_inj.not.symm
  have hp : a.port ≠ b.port ↔ a.port.toNat ≠ b.port.toNat := UInt16.toNat_inj.not.symm
  unfold portEntryCmp PortEntry.key
  simp only [firstDiff, hf, hp]
  rfl

theorem PortEntry.key_injective : Function.Injective PortEntry.key := by
  intro a b h
  simp only [PortEntry.key, List.cons.injEq] at h
  obtain ⟨hf, hp, ha⟩ := h
  have hbytes : a.addr.bytes = b.addr.bytes :=
    List.map_injective_iff.mpr (fun x y h => UInt8.toNat_inj.mp h) ha
  cases a
  cases b
  simp only [PortEntry.mk.injEq]
  exact ⟨UInt16.toNat_inj.mp hf, UInt16.toNat_inj.mp hp, Addr.bytes_injective hbytes⟩

/-- `port_entry_cmp` is a strict order compatible with equality of entries. -/
theorem lawfulCmp_portEntryCmp : LawfulCmp portEntryCmp :=
  lawfulCmp_of_key (n := 18) portEntryCmp_eq
    (fun a => by simp [PortEntry.key, Addr.length_bytes]) PortEntry.key_injective

/-! ## Snapshots -/

/-- What the snapshot reads of a record: `so_qlimit`, `SO_ACCEPTCONN`, `inp_lport` (network byte
order) and the local address. -/
structure Pcb where
  qlimit : UInt32 := 0
  acceptConn : Bool := true
  lport : UInt16
  laddr : Addr
  deriving DecidableEq, Repr

/-- The answers of the kernel to a snapshot: the records of the two lists, absent when a list
is not available, and whether the allocations succeed. Without `INET6` the records of the second
list are skipped. -/
structure OsPorts where
  pcblist : Option (List Pcb) := some []
  pcblist6 : Option (List Pcb) := some []
  inet6 : Bool := true
  malloc : Bool := true
  deriving DecidableEq, Repr

def portEntryOfPcb (p : Platform) (v6 : Bool) (pcb : Pcb) : PortEntry where
  family := if v6 then p.AF_INET6 else AF_INET
  port := htons pcb.lport
  addr := if v6 then pcb.laddr else { w0 := pcb.laddr.w0 }

/-- The entries of one list that are kept, in the order of the list. -/
def listeningEntries (p : Platform) (v6 : Bool) (records : List Pcb) : List PortEntry :=
  ((records.filter fun pcb => pcb.qlimit ≠ 0 || pcb.acceptConn).map
    (portEntryOfPcb p v6)).filter (portEntryMatchesRelay p)

/-- The relayed entries as the kernel lists them, in any order and with any repetitions. -/
def OsPorts.listed (os : OsPorts) (p : Platform) : Option (List PortEntry) :=
  if os.malloc then
    some (listeningEntries p false (os.pcblist.getD []) ++
      if os.inet6 then listeningEntries p true (os.pcblist6.getD []) else [])
  else none

/-- `collect_listening_ports`. -/
def collectListeningPorts (p : Platform) (os : OsPorts) : Option (List PortEntry) :=
  (os.listed p).map portEntryDedupSort

theorem collect_eq_some {p : Platform} {os : OsPorts} {l : List PortEntry}
    (h : os.listed p = some l) : collectListeningPorts p os = some (portEntryDedupSort l) := by
  rw [collectListeningPorts, h]
  rfl

theorem mem_portEntryDedupSort (l : List PortEntry) (e : PortEntry) :
    e ∈ portEntryDedupSort l ↔ e ∈ l := mem_dedupSort lawfulCmp_portEntryCmp l e

theorem strictlySorted_portEntryDedupSort (l : List PortEntry) :
    StrictlySorted portEntryCmp (portEntryDedupSort l) :=
  strictlySorted_dedupSort lawfulCmp_portEntryCmp l

end WslFreeBSD.Ports
