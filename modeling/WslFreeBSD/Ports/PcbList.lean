import WslFreeBSD.Lib.Access
import WslFreeBSD.Ports.Entry

/-!
# The walk over a `pcblist`

What `collect_listening_ports` does with the buffer of one `sysctl`. The structures are those of the
system headers, so their sizes and the places of their fields are parameters. A record is looked at
when its `xig_len` does not reach behind the buffer, and then `xinpcb` and `xsocket` are read behind
its header, whatever `xig_len` is; the record that the kernel puts at the end is no exception.

`scan_safe_iff` says for which buffers all this stays inside: those in which every record that the
lengths lead to has the fields that are read in front of the end of the buffer, and no length makes
an address wrap around.
-/

namespace WslFreeBSD.Ports

open Lib Protocol

/-! ## The code -/

/-- The place of a field in a structure. -/
structure PcbField where
  off : Nat
  size : Nat
  deriving DecidableEq, Repr

/-- `struct xinpgen`, `struct xinpcb` and `struct xsocket` of the system headers. -/
structure PcbLayout where
  xinpgenSize : Nat
  xinpcbSize : Nat
  xsocketSize : Nat
  xigLen : PcbField
  inpLport : Nat
  inpLaddr : Nat
  in6pLaddr : Nat
  soQlimit : PcbField
  soOptions : PcbField
  xinpgen_le : xinpgenSize ≤ 2 ^ 32
  xigLen_le : xigLen.off + xigLen.size ≤ xinpgenSize
  xigLen_size : 0 < xigLen.size ∧ xigLen.size ≤ 8
  inpLport_le : inpLport + 2 ≤ xinpcbSize
  inpLaddr_le : inpLaddr + 4 ≤ xinpcbSize
  in6pLaddr_le : in6pLaddr + 16 ≤ xinpcbSize
  soQlimit_le : soQlimit.off + soQlimit.size ≤ xsocketSize
  soQlimit_size : 0 < soQlimit.size
  soOptions_le : soOptions.off + soOptions.size ≤ xsocketSize
  soOptions_size : 0 < soOptions.size

def pointer (address : Nat) : Nat := address % 2 ^ 64

def SO_ACCEPTCONN : Nat := 2

/-- A record that the loop has looked at: where it is, its `xig_len`, where the loop goes on, and the
entry that is kept of it. -/
structure PcbVisit where
  address : Nat
  length : Nat
  next : Nat
  entry : Option PortEntry
  deriving DecidableEq, Repr

section Code

variable (lay : PcbLayout) (v6 inet6 : Bool)

/-- `so->so_qlimit != 0 || (so->so_options & SO_ACCEPTCONN)`. -/
def isListening (so : Nat) : Access Bool := do
  let qlimit ← Access.field (so + lay.soQlimit.off) lay.soQlimit.size
  if qlimit ≠ 0 then pure true
  else do
    let options ← Access.field (so + lay.soOptions.off) lay.soOptions.size
    pure (decide (options &&& SO_ACCEPTCONN ≠ 0))

/-- The entry of a listening socket, if its address is relayed. -/
def listeningEntry (inp : Nat) : Access (Option PortEntry) :=
  if ¬ v6 then do
    let lport ← Access.field (inp + lay.inpLport) 2
    let laddr ← Access.field (inp + lay.inpLaddr) 4
    let e := portEntryOfPcb .freebsd false
      { lport := UInt16.ofNat lport, laddr := { w0 := UInt32.ofNat laddr } }
    pure (some e |>.filter (portEntryMatchesRelay .freebsd))
  else if inet6 then do
    let lport ← Access.field (inp + lay.inpLport) 2
    let w0 ← Access.field (inp + lay.in6pLaddr) 4
    let w1 ← Access.field (inp + (lay.in6pLaddr + 4)) 4
    let w2 ← Access.field (inp + (lay.in6pLaddr + 8)) 4
    let w3 ← Access.field (inp + (lay.in6pLaddr + 12)) 4
    let e := portEntryOfPcb .freebsd true
      { lport := UInt16.ofNat lport
        laddr := ⟨UInt32.ofNat w0, UInt32.ofNat w1, UInt32.ofNat w2, UInt32.ofNat w3⟩ }
    pure (some e |>.filter (portEntryMatchesRelay .freebsd))
  else pure none

def recordEntry (p : Nat) : Access (Option PortEntry) := do
  let inp := p + lay.xinpgenSize
  if ← isListening lay (inp + lay.xinpcbSize) then listeningEntry lay v6 inet6 inp
  else pure none

/-- The record at an address with its length; there is none where the loop ends. -/
def pcbRecord (last p length : Nat) : Access (Option PcbVisit) :=
  if length < lay.xinpgenSize ∨ length = 0 then pure none
  else if last < pointer (p + length) then pure none
  else do
    let entry ← recordEntry lay v6 inet6 p
    pure (some { address := p, length, next := pointer (p + length), entry })

def pcbStep (last p : Nat) : Access (Option PcbVisit) :=
  if last < pointer (p + lay.xinpgenSize) then pure none
  else do
    let length ← Access.field (p + lay.xigLen.off) lay.xigLen.size
    pcbRecord lay v6 inet6 last p length

/-- The loop; there is no result when it does not end in the given number of iterations. -/
def pcbWalk (last : Nat) : Nat → Nat → Access (Option (List PcbVisit))
  | 0, _ => pure none
  | fuel + 1, p => do
    match ← pcbStep lay v6 inet6 last p with
    | none => pure (some [])
    | some visit => do
      let rest ← pcbWalk last fuel visit.next
      pure (rest.map (visit :: ·))

/-- The records of a buffer at an address; a buffer without room for the header is not looked at. -/
def scanPcbList (base len fuel : Nat) : Access (Option (List PcbVisit)) :=
  if len < lay.xinpgenSize then pure (some [])
  else pcbWalk lay v6 inet6 (base + len) fuel (base + lay.xinpgenSize)

end Code

/-! ## Records of a buffer -/

section Records

variable (lay : PcbLayout) (buf : Bytes)

/-- The `xig_len` of the record at an offset. -/
def xigLenAt (o : Nat) : Nat := leAt (o + lay.xigLen.off) lay.xigLen.size buf

/-- The record at an offset is looked at: it has a header, and its length covers the header and does
not reach behind the buffer. -/
def LookedAt (o : Nat) : Prop :=
  o + lay.xinpgenSize ≤ buf.length ∧ lay.xinpgenSize ≤ xigLenAt lay buf o ∧
    o + xigLenAt lay buf o ≤ buf.length

instance (o : Nat) : Decidable (LookedAt lay buf o) := inferInstanceAs (Decidable (_ ∧ _ ∧ _))

theorem PcbLayout.xinpgen_pos : 0 < lay.xinpgenSize := by
  have := lay.xigLen_le
  have := lay.xigLen_size
  omega

/-- The offsets that the lengths lead to, up to that of the record that is not looked at. -/
def offsetsFrom (o : Nat) : List Nat :=
  if LookedAt lay buf o then o :: offsetsFrom (o + xigLenAt lay buf o) else [o]
termination_by buf.length - o
decreasing_by
  obtain ⟨hheader, hlen, -⟩ := ‹LookedAt lay buf o›
  have := lay.xinpgen_pos
  omega

/-- There is room in the buffer for the fields of the record's `xsocket` that are read. -/
def RoomForSocket (o : Nat) : Prop :=
  let so := o + lay.xinpgenSize + lay.xinpcbSize
  so + lay.soQlimit.off + lay.soQlimit.size ≤ buf.length ∧
    (leAt (so + lay.soQlimit.off) lay.soQlimit.size buf = 0 →
      so + lay.soOptions.off + lay.soOptions.size ≤ buf.length)

instance (o : Nat) : Decidable (RoomForSocket lay buf o) := inferInstanceAs (Decidable (_ ∧ (_ → _)))

/-- The length of the record, if it is used, does not lead behind the last address. -/
def NoWrap (base o : Nat) : Prop :=
  o + lay.xinpgenSize ≤ buf.length → lay.xinpgenSize ≤ xigLenAt lay buf o →
    base + o + xigLenAt lay buf o < 2 ^ 64

end Records

/-! ## One record -/

section Buffer

variable {lay : PcbLayout} {v6 inet6 : Bool} {before buf after : Bytes}

abbrev bufferCells (before buf : Bytes) : Set Nat := Access.cellsOf before.length buf.length

theorem isListening_within_iff (s : Nat) :
    (isListening lay (before.length + s)).Within (before ++ buf ++ after) (bufferCells before buf) ↔
      s + lay.soQlimit.off + lay.soQlimit.size ≤ buf.length ∧
        (leAt (s + lay.soQlimit.off) lay.soQlimit.size buf = 0 →
          s + lay.soOptions.off + lay.soOptions.size ≤ buf.length) := by
  unfold isListening
  rw [Nat.add_assoc, Nat.add_assoc before.length, Access.within_field_array_bind lay.soQlimit_size]
  refine and_congr_right fun _ => ?_
  by_cases hzero : leAt (s + lay.soQlimit.off) lay.soQlimit.size buf = 0
  · rw [if_neg (not_not.mpr hzero), Access.within_field_array_bind lay.soOptions_size]
    simp [hzero, Access.within_pure]
  · rw [if_pos hzero]
    simp [hzero, Access.within_pure]

theorem isListening_completes {s : Nat}
    (h : (isListening lay (before.length + s)).Within (before ++ buf ++ after) (bufferCells before buf)) :
    (isListening lay (before.length + s)).Completes (before ++ buf ++ after) (bufferCells before buf) := by
  rw [isListening_within_iff] at h
  unfold isListening
  rw [Nat.add_assoc, Nat.add_assoc before.length, Access.completes_field_array_bind lay.soQlimit_size]
  refine ⟨h.1, ?_⟩
  by_cases hzero : leAt (s + lay.soQlimit.off) lay.soQlimit.size buf = 0
  · rw [if_neg (not_not.mpr hzero), Access.completes_field_array_bind lay.soOptions_size]
    exact ⟨h.2 hzero, Access.completes_pure _⟩
  · rw [if_pos hzero]
    exact Access.completes_pure _

theorem listeningEntry_completes {i : Nat} (h : i + lay.xinpcbSize ≤ buf.length) :
    (listeningEntry lay v6 inet6 (before.length + i)).Completes (before ++ buf ++ after)
      (bufferCells before buf) := by
  have hport := lay.inpLport_le
  have haddr := lay.inpLaddr_le
  have haddr6 := lay.in6pLaddr_le
  unfold listeningEntry
  simp only [Nat.add_assoc]
  cases v6 with
  | false =>
    rw [if_pos Bool.false_ne_true, Access.completes_field_array_bind (by decide)]
    refine ⟨by omega, ?_⟩
    rw [Access.completes_field_array_bind (by decide)]
    exact ⟨by omega, Access.completes_pure _⟩
  | true =>
    rw [if_neg (not_not.mpr rfl)]
    cases inet6 with
    | false => exact Access.completes_pure _
    | true =>
      rw [if_pos rfl, Access.completes_field_array_bind (by decide)]
      refine ⟨by omega, ?_⟩
      rw [Access.completes_field_array_bind (by decide)]
      refine ⟨by omega, ?_⟩
      rw [Access.completes_field_array_bind (by decide)]
      refine ⟨by omega, ?_⟩
      rw [Access.completes_field_array_bind (by decide)]
      refine ⟨by omega, ?_⟩
      rw [Access.completes_field_array_bind (by decide)]
      exact ⟨by omega, Access.completes_pure _⟩

/-- A record is read inside the buffer exactly if there is room for its `xsocket`. -/
theorem recordEntry_within_iff (o : Nat) :
    (recordEntry lay v6 inet6 (before.length + o)).Within (before ++ buf ++ after)
        (bufferCells before buf) ↔ RoomForSocket lay buf o := by
  have hlisten : (isListening lay (before.length + (o + lay.xinpgenSize + lay.xinpcbSize))).Within
      (before ++ buf ++ after) (bufferCells before buf) ↔ RoomForSocket lay buf o :=
    isListening_within_iff _
  unfold recordEntry
  dsimp only
  rw [Nat.add_assoc before.length, Nat.add_assoc before.length]
  rw [Access.within_bind, hlisten]
  refine ⟨fun h => h.1, fun h => ⟨h, fun listening _ => ?_⟩⟩
  split
  · have := h.1
    exact (listeningEntry_completes (by omega)).1
  · exact Access.within_pure _

theorem recordEntry_completes {o : Nat} (h : RoomForSocket lay buf o) :
    (recordEntry lay v6 inet6 (before.length + o)).Completes (before ++ buf ++ after)
      (bufferCells before buf) := by
  have hlisten : (isListening lay (before.length + (o + lay.xinpgenSize + lay.xinpcbSize))).Within
      (before ++ buf ++ after) (bufferCells before buf) := (isListening_within_iff _).mpr h
  unfold recordEntry
  dsimp only
  rw [Nat.add_assoc before.length, Nat.add_assoc before.length]
  refine (isListening_completes hlisten).bind fun listening => ?_
  split
  · have := h.1
    exact listeningEntry_completes (by omega)
  · exact Access.completes_pure _

/-! ## One iteration -/

/-- A record is taken for one: it goes on by its length, and is not the last header of the buffer. -/
def ProperVisit (lay : PcbLayout) (last : Nat) (visit : PcbVisit) : Prop :=
  visit.next = visit.address + visit.length ∧ visit.address + lay.xinpgenSize ≠ last

/-- A run that ends, stays inside the buffer and takes only records for records. -/
def SafeRun (lay : PcbLayout) (before buf after : Bytes) (x : Access (Option (List PcbVisit))) : Prop :=
  x.Within (before ++ buf ++ after) (bufferCells before buf) ∧
    ∃ visits, (x.run (before ++ buf ++ after)).1 = some (some visits) ∧
      ∀ visit ∈ visits, ProperVisit lay (before.length + buf.length) visit

theorem safeRun_bind {α : Type} {x : Access α} {f : α → Access (Option (List PcbVisit))} {a : α}
    (h : (x.run (before ++ buf ++ after)).1 = some a) :
    SafeRun lay before buf after (x >>= f) ↔
      x.Within (before ++ buf ++ after) (bufferCells before buf) ∧
        SafeRun lay before buf after (f a) := by
  rw [SafeRun, Access.within_bind_some h, Access.value_bind h, and_assoc]
  rfl

theorem safeRun_cons {visit : PcbVisit} {y : Access (Option (List PcbVisit))} :
    SafeRun lay before buf after (do let rest ← y; pure (rest.map (visit :: ·))) ↔
      ProperVisit lay (before.length + buf.length) visit ∧ SafeRun lay before buf after y := by
  cases hy : (y.run (before ++ buf ++ after)).1 with
  | none =>
    refine iff_of_false ?_ ?_
    · rintro ⟨-, visits, hvalue, -⟩
      rw [Access.run_bind_none hy] at hvalue
      cases hvalue
    · rintro ⟨-, -, visits, hvalue, -⟩
      rw [hy] at hvalue
      cases hvalue
  | some rest =>
    rw [safeRun_bind hy]
    cases rest with
    | none =>
      refine iff_of_false ?_ ?_
      · rintro ⟨-, -, visits, hvalue, -⟩
        cases Option.some.inj hvalue
      · rintro ⟨-, -, visits, hvalue, -⟩
        rw [hy] at hvalue
        cases Option.some.inj hvalue
    | some rest =>
      constructor
      · rintro ⟨hwithin, -, visits, hvalue, hproper⟩
        obtain rfl : visit :: rest = visits := Option.some.inj (Option.some.inj hvalue)
        exact ⟨hproper visit (by simp), hwithin, rest, hy, fun v hv => hproper v (List.mem_cons_of_mem _ hv)⟩
      · rintro ⟨hvisit, hwithin, rest', hvalue, hproper⟩
        obtain rfl : rest = rest' := Option.some.inj (Option.some.inj (hy.symm.trans hvalue))
        exact ⟨hwithin, Access.within_pure _, visit :: rest, rfl, List.forall_mem_cons.mpr ⟨hvisit, hproper⟩⟩

def SafeFrom (lay : PcbLayout) (v6 inet6 : Bool) (before buf after : Bytes) (o : Nat) : Prop :=
  ∃ fuel, SafeRun lay before buf after
    (pcbWalk lay v6 inet6 (before.length + buf.length) fuel (before.length + o))

theorem pointer_of_lt {a : Nat} (h : a < 2 ^ 64) : pointer a = a := Nat.mod_eq_of_lt h

section Iteration

variable (hplace : before.length + buf.length ≤ 2 ^ 63) {o : Nat} (ho : o ≤ buf.length)

include hplace ho

theorem pcbStep_short (h : ¬ o + lay.xinpgenSize ≤ buf.length) :
    pcbStep lay v6 inet6 (before.length + buf.length) (before.length + o) = pure none := by
  have := lay.xinpgen_le
  rw [pcbStep, pointer_of_lt (by omega), if_pos (by omega)]

omit ho in
theorem pcbStep_header (h : o + lay.xinpgenSize ≤ buf.length) :
    ((pcbStep lay v6 inet6 (before.length + buf.length) (before.length + o)).Within
        (before ++ buf ++ after) (bufferCells before buf) ↔
      (pcbRecord lay v6 inet6 (before.length + buf.length) (before.length + o)
        (xigLenAt lay buf o)).Within (before ++ buf ++ after) (bufferCells before buf)) ∧
    ((pcbStep lay v6 inet6 (before.length + buf.length) (before.length + o)).run
        (before ++ buf ++ after)).1 =
      ((pcbRecord lay v6 inet6 (before.length + buf.length) (before.length + o)
        (xigLenAt lay buf o)).run (before ++ buf ++ after)).1 := by
  have hfield : o + lay.xigLen.off + lay.xigLen.size ≤ buf.length := by
    have := lay.xigLen_le
    omega
  rw [pcbStep, pointer_of_lt (by omega), if_neg (by omega), Nat.add_assoc before.length]
  constructor
  · rw [Access.within_field_array_bind lay.xigLen_size.1]
    exact and_iff_right hfield
  · rw [Access.value_bind (Access.run_field_array hfield)]
    rfl

theorem safeFrom_of_end (hwrap : NoWrap lay buf before.length o) (h : ¬ LookedAt lay buf o) :
    SafeFrom lay v6 inet6 before buf after o := by
  have hstep : (pcbStep lay v6 inet6 (before.length + buf.length) (before.length + o)).Within
        (before ++ buf ++ after) (bufferCells before buf) ∧
      ((pcbStep lay v6 inet6 (before.length + buf.length) (before.length + o)).run
        (before ++ buf ++ after)).1 = some none := by
    by_cases hheader : o + lay.xinpgenSize ≤ buf.length
    · have hrecord : pcbRecord lay v6 inet6 (before.length + buf.length) (before.length + o)
          (xigLenAt lay buf o) = pure none := by
        by_cases hshort : xigLenAt lay buf o < lay.xinpgenSize
        · rw [pcbRecord, if_pos (Or.inl hshort)]
        · have hlong : buf.length < o + xigLenAt lay buf o :=
            Nat.lt_of_not_le fun hle => h ⟨hheader, Nat.le_of_not_lt hshort, hle⟩
          have hlt := hwrap hheader (Nat.le_of_not_lt hshort)
          have hpos := lay.xinpgen_pos
          rw [pcbRecord, if_neg (by omega), pointer_of_lt hlt, if_pos (by omega)]
      obtain ⟨hwithin, hvalue⟩ := @pcbStep_header lay v6 inet6 before buf after hplace o hheader
      rw [hrecord] at hwithin hvalue
      exact ⟨hwithin.mpr (Access.within_pure _), hvalue⟩
    · rw [pcbStep_short hplace ho hheader]
      exact ⟨Access.within_pure _, rfl⟩
  refine ⟨1, ?_, [], ?_, List.forall_mem_nil _⟩
  · rw [pcbWalk, Access.within_bind_some hstep.2]
    exact ⟨hstep.1, Access.within_pure _⟩
  · rw [pcbWalk, Access.value_bind hstep.2]
    rfl

omit hplace ho in
theorem pcbRecord_visit {last p length : Nat} (hlen : lay.xinpgenSize ≤ length)
    (hlast : pointer (p + length) ≤ last) :
    pcbRecord lay v6 inet6 last p length = (do
      let entry ← recordEntry lay v6 inet6 p
      pure (some { address := p, length, next := pointer (p + length), entry })) := by
  have := lay.xinpgen_pos
  rw [pcbRecord, if_neg (by omega), if_neg (by omega)]

theorem pointer_le_of_wrap (h : 2 ^ 64 ≤ before.length + o + xigLenAt lay buf o) :
    pointer (before.length + o + xigLenAt lay buf o) ≤ before.length + buf.length := by
  have hsize : xigLenAt lay buf o < 2 ^ 64 := by
    refine (leAt_lt _ _ _).trans_le ?_
    calc 256 ^ lay.xigLen.size ≤ 256 ^ 8 := Nat.pow_le_pow_right (by decide) lay.xigLen_size.2
      _ = 2 ^ 64 := by decide
  unfold pointer
  omega

omit ho in
theorem walk_record {fuel : Nat} (hheader : o + lay.xinpgenSize ≤ buf.length)
    (hlen : lay.xinpgenSize ≤ xigLenAt lay buf o)
    (hlast : pointer (before.length + o + xigLenAt lay buf o) ≤ before.length + buf.length) :
    SafeRun lay before buf after
        (pcbWalk lay v6 inet6 (before.length + buf.length) (fuel + 1) (before.length + o)) ↔
      RoomForSocket lay buf o ∧ before.length + o + xigLenAt lay buf o < 2 ^ 64 ∧
        SafeRun lay before buf after (pcbWalk lay v6 inet6 (before.length + buf.length) fuel
          (before.length + (o + xigLenAt lay buf o))) := by
  obtain ⟨hwithin, hvalue⟩ := @pcbStep_header lay v6 inet6 before buf after hplace o hheader
  rw [pcbRecord_visit hlen hlast] at hwithin hvalue
  have hreads : (pcbStep lay v6 inet6 (before.length + buf.length) (before.length + o)).Within
      (before ++ buf ++ after) (bufferCells before buf) ↔ RoomForSocket lay buf o := by
    rw [hwithin, Access.within_bind, recordEntry_within_iff]
    exact and_iff_left fun _ _ => Access.within_pure _
  by_cases hroom : RoomForSocket lay buf o
  · obtain ⟨-, entry, hentry⟩ := @recordEntry_completes lay v6 inet6 before buf after o hroom
    rw [Access.value_bind hentry] at hvalue
    rw [pcbWalk, safeRun_bind hvalue, hreads]
    refine and_congr_right fun _ => ?_
    rw [safeRun_cons]
    have hproper : ProperVisit lay (before.length + buf.length)
        { address := before.length + o, length := xigLenAt lay buf o
          next := pointer (before.length + o + xigLenAt lay buf o), entry } ↔
        before.length + o + xigLenAt lay buf o < 2 ^ 64 := by
      have hend : before.length + o + lay.xinpgenSize ≠ before.length + buf.length := by
        have := hroom.1
        have := lay.soQlimit_size
        omega
      unfold ProperVisit
      simp only [hend, ne_eq, not_false_eq_true, and_true]
      refine ⟨fun hnext => ?_, pointer_of_lt⟩
      rw [← hnext]
      exact Nat.mod_lt _ (by decide)
    rw [hproper]
    refine and_congr_right fun hlt => ?_
    rw [pointer_of_lt hlt, Nat.add_assoc]
  · refine iff_of_false (fun hsafe => hroom (hreads.mp ?_)) fun h => hroom h.1
    have := hsafe.1
    rw [pcbWalk, Access.within_bind] at this
    exact this.1

/-- A record that is looked at has to have room, and the loop has to be safe behind it; a record
whose length wraps around is not passed by its length. -/
theorem of_safeFrom (h : SafeFrom lay v6 inet6 before buf after o) :
    NoWrap lay buf before.length o ∧
      (LookedAt lay buf o → RoomForSocket lay buf o ∧
        SafeFrom lay v6 inet6 before buf after (o + xigLenAt lay buf o)) := by
  obtain ⟨fuel, hsafe⟩ := h
  cases fuel with
  | zero =>
    obtain ⟨-, visits, hvalue, -⟩ := hsafe
    cases Option.some.inj hvalue
  | succ fuel =>
    constructor
    · intro hheader hlen
      by_contra hwrap
      exact hwrap ((walk_record hplace hheader hlen
        (pointer_le_of_wrap hplace ho (Nat.le_of_not_lt hwrap))).mp hsafe).2.1
    · rintro ⟨hheader, hlen, hend⟩
      have hlast : pointer (before.length + o + xigLenAt lay buf o) ≤ before.length + buf.length := by
        rw [pointer_of_lt (by omega)]
        omega
      obtain ⟨hroom, -, hrest⟩ := (walk_record hplace hheader hlen hlast).mp hsafe
      exact ⟨hroom, fuel, hrest⟩

omit ho in
theorem safeFrom_of_record (hlook : LookedAt lay buf o) (hroom : RoomForSocket lay buf o)
    (h : SafeFrom lay v6 inet6 before buf after (o + xigLenAt lay buf o)) :
    SafeFrom lay v6 inet6 before buf after o := by
  obtain ⟨hheader, hlen, hend⟩ := hlook
  obtain ⟨fuel, hrest⟩ := h
  have hlt : before.length + o + xigLenAt lay buf o < 2 ^ 64 := by omega
  have hlast : pointer (before.length + o + xigLenAt lay buf o) ≤ before.length + buf.length := by
    rw [pointer_of_lt hlt]
    omega
  exact ⟨fuel + 1, (walk_record hplace hheader hlen hlast).mpr ⟨hroom, hlt, hrest⟩⟩

end Iteration

/-! ## All records -/

/-- At every offset that the lengths lead to, a length that is used does not wrap around, and a record
that is looked at has room for the fields that are read. -/
def RecordsFit (lay : PcbLayout) (base : Nat) (buf : Bytes) : Prop :=
  buf.length < lay.xinpgenSize ∨ ∀ o ∈ offsetsFrom lay buf lay.xinpgenSize,
    NoWrap lay buf base o ∧ (LookedAt lay buf o → RoomForSocket lay buf o)

theorem safeFrom_iff (hplace : before.length + buf.length ≤ 2 ^ 63) {o : Nat} (ho : o ≤ buf.length) :
    SafeFrom lay v6 inet6 before buf after o ↔ ∀ o' ∈ offsetsFrom lay buf o,
      NoWrap lay buf before.length o' ∧ (LookedAt lay buf o' → RoomForSocket lay buf o') := by
  fun_induction offsetsFrom lay buf o with
  | case1 o hlook ih =>
    have hrest := ih hlook.2.2
    rw [List.forall_mem_cons, ← hrest]
    constructor
    · intro h
      obtain ⟨hwrap, hrecord⟩ := of_safeFrom hplace ho h
      obtain ⟨hroom, hsafe⟩ := hrecord hlook
      exact ⟨⟨hwrap, fun _ => hroom⟩, hsafe⟩
    · rintro ⟨⟨-, hroom⟩, hsafe⟩
      exact safeFrom_of_record hplace hlook (hroom hlook) hsafe
  | case2 o hend =>
    rw [List.forall_mem_singleton]
    constructor
    · intro h
      exact ⟨(of_safeFrom hplace ho h).1, fun hlook => absurd hlook hend⟩
    · rintro ⟨hwrap, -⟩
      exact safeFrom_of_end hplace ho hwrap hend

/-- The scan of the buffer ends, stays inside of it and takes only records for records. -/
def ScanSafe (lay : PcbLayout) (v6 inet6 : Bool) (before buf after : Bytes) : Prop :=
  ∃ fuel, SafeRun lay before buf after (scanPcbList lay v6 inet6 before.length buf.length fuel)

theorem scan_safe_iff (lay : PcbLayout) (v6 inet6 : Bool) (before buf after : Bytes)
    (hplace : before.length + buf.length ≤ 2 ^ 63) :
    ScanSafe lay v6 inet6 before buf after ↔ RecordsFit lay before.length buf := by
  unfold ScanSafe RecordsFit
  by_cases hshort : buf.length < lay.xinpgenSize
  · refine iff_of_true ⟨0, ?_⟩ (Or.inl hshort)
    rw [scanPcbList, if_pos hshort]
    exact ⟨Access.within_pure _, [], rfl, List.forall_mem_nil _⟩
  · have hscan : ∀ fuel, scanPcbList lay v6 inet6 before.length buf.length fuel =
        pcbWalk lay v6 inet6 (before.length + buf.length) fuel (before.length + lay.xinpgenSize) :=
      fun fuel => if_neg hshort
    simp only [hscan, hshort, false_or]
    exact safeFrom_iff hplace (Nat.le_of_not_lt hshort)

theorem not_recordsFit_of_trailer {base o : Nat} (ho : o ∈ offsetsFrom lay buf lay.xinpgenSize)
    (hlast : o + lay.xinpgenSize = buf.length) (hlen : xigLenAt lay buf o = lay.xinpgenSize) :
    ¬ RecordsFit lay base buf := by
  rintro (hshort | hall)
  · omega
  · have hroom := (hall o ho).2 ⟨hlast.le, hlen.ge, by omega⟩
    have := hroom.1
    have := lay.soQlimit_size
    omega

end Buffer

/-- The structures of FreeBSD on a 64-bit machine. -/
def amd64Layout : PcbLayout where
  xinpgenSize := 64
  xinpcbSize := 400
  xsocketSize := 240
  xigLen := ⟨0, 8⟩
  inpLport := 254
  inpLaddr := 284
  in6pLaddr := 272
  soQlimit := ⟨112, 4⟩
  soOptions := ⟨158, 2⟩
  xinpgen_le := by decide
  xigLen_le := by decide
  xigLen_size := by decide
  inpLport_le := by decide
  inpLaddr_le := by decide
  in6pLaddr_le := by decide
  soQlimit_le := by decide
  soQlimit_size := by decide
  soOptions_le := by decide
  soOptions_size := by decide

/-- A list without sockets: the first header, and the one at the end. -/
def emptyPcbList : Bytes := List.replicate 64 0 ++ leBytes 8 64 ++ List.replicate 56 0

theorem scan_safe_empty : ScanSafe amd64Layout false true [] emptyPcbList [] ↔
    RecordsFit amd64Layout 0 emptyPcbList :=
  scan_safe_iff amd64Layout false true [] emptyPcbList [] (by decide +kernel)

/-- On a list without sockets, the header at the end is taken for a record. -/
theorem scan_not_safe : ¬ ∀ (lay : PcbLayout) (v6 inet6 : Bool) (before buf after : Bytes),
    before.length + buf.length ≤ 2 ^ 63 → ScanSafe lay v6 inet6 before buf after := by
  intro h
  obtain ⟨fuel, hsafe⟩ := h amd64Layout false true [] emptyPcbList [] (by decide +kernel)
  rw [scanPcbList, if_neg (by decide +kernel)] at hsafe
  have hroom := ((of_safeFrom (by decide +kernel) (by decide +kernel) ⟨fuel, hsafe⟩).2
    (by decide +kernel)).1
  exact absurd hroom (by decide +kernel)

end WslFreeBSD.Ports
