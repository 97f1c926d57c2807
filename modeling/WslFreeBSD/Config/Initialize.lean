import Mathlib.Data.List.Forall2
import WslFreeBSD.Protocol.Messages

/-!
# The Initialize message (`config_parser.h`)

`struct wsl_init_message` is a `MESSAGE_HEADER`, six offsets into the trailing `Buffer`, four
scalar fields and the buffer itself. `wslConfigBuildMessage` packs six NUL-terminated strings
into the buffer and records where each of them starts; `wslConfigParse` reads the strings at the
recorded offsets, never past the end of the message.

Parsing what was built gives the strings and the scalars back, and whatever the bytes of a
message are, a parsed string is a NUL-free slice of its buffer (`wslConfigParse_spec`).

Pointers that may be `NULL` are options. Memory allocation succeeds; what it returns holds
arbitrary bytes (`heap`).
-/

namespace WslFreeBSD.Config

open Lib Protocol

/-! ## Parsing -/

/-- `sizeof(struct wsl_init_message)`: the header and ten 32-bit fields. -/
def initMessageSize : Nat := 52

def LxInitMessageInitialize : Nat := 5

def WSL_DRVFS_MOUNT_ELEVATED : UInt32 := 2

/-- `struct wsl_config`. -/
structure WslConfig where
  hostname : Option Bytes
  domainname : Option Bytes
  windowsHosts : Option Bytes
  distributionName : Option Bytes
  plan9SocketPath : Option Bytes
  timezone : Option Bytes
  drvfsVolumesBitmap : UInt32
  drvfsDefaultOwner : UInt32
  featureFlags : UInt32
  drvfsMount : UInt32
  drvfsElevated : Bool
  deriving DecidableEq, Repr

/-- `wsl_config_init`. -/
def wslConfigInit : WslConfig :=
  ⟨none, none, none, none, none, none, 0, 0, 0, 0, false⟩

def WslConfig.strings (cfg : WslConfig) : List (Option Bytes) :=
  [cfg.hostname, cfg.domainname, cfg.windowsHosts, cfg.distributionName, cfg.plan9SocketPath,
    cfg.timezone]

/-- `wsl_extract_string`: up to the first NUL or the end of the buffer. -/
def wslExtractString (buffer : Bytes) (offset : UInt32) : Option Bytes :=
  if offset.toNat ≥ buffer.length then none else some (cString buffer offset.toNat)

/-- The 32-bit field with the given index after the header. -/
def initField (msg : Bytes) (index : Nat) : UInt32 := UInt32.ofNat (leAt (headerSize + 4 * index) 4 msg)

/-- `wsl_config_parse`: the return value and the configuration. -/
def wslConfigParse (cfg : WslConfig) : Option Bytes → Int × WslConfig
  | none => (-1, cfg)
  | some msg =>
    if msg.length < initMessageSize then (-1, cfg)
    else
      let buffer := msg.drop initMessageSize
      (0,
        { hostname := wslExtractString buffer (initField msg 0)
          domainname := wslExtractString buffer (initField msg 1)
          windowsHosts := wslExtractString buffer (initField msg 2)
          distributionName := wslExtractString buffer (initField msg 3)
          plan9SocketPath := wslExtractString buffer (initField msg 4)
          timezone := wslExtractString buffer (initField msg 5)
          drvfsVolumesBitmap := initField msg 6
          drvfsDefaultOwner := initField msg 7
          featureFlags := initField msg 8
          drvfsMount := initField msg 9
          drvfsElevated := initField msg 9 = WSL_DRVFS_MOUNT_ELEVATED })

/-! ## Building -/

abbrev CStr := { s : Bytes // 0 ∉ s }

/-- A string argument, `NULL` being treated as `""`. -/
def orEmpty (s : Option CStr) : Bytes := (s.map Subtype.val).getD []

/-- `memcpy(buf + off, src, n)` with `n` the length of `src`. -/
def memcpy (buf : Bytes) (off : Nat) (src : Bytes) : Bytes :=
  buf.take off ++ src ++ buf.drop (off + src.length)

/-- The packing of strings into `Buffer`: the running `offset`, the buffer and the offsets that
were recorded. -/
structure Packing where
  offset : UInt32
  buf : Bytes
  offsets : List UInt32

/-- Record the offset, copy the string with its NUL and advance. -/
def Packing.put (p : Packing) (s : Bytes) : Packing where
  offset := p.offset + UInt32.ofNat (s.length + 1)
  buf := memcpy p.buf p.offset.toNat (s ++ [0])
  offsets := p.offsets ++ [p.offset]

def fieldBytes (ws : List UInt32) : Bytes := ws.flatMap fun w => leBytes 4 w.toNat

/-- The bytes of strings with their terminators, end to end. -/
def terminated (ss : List Bytes) : Bytes := ss.flatMap (· ++ [0])

/-- `wsl_config_build_message`. -/
def wslConfigBuildMessage (heap : Nat → UInt8)
    (hostname domainname windowsHosts distributionName plan9Socket timezone : Option CStr)
    (drvfsBitmap drvfsOwner featureFlags drvfsMount seq : UInt32) : Bytes :=
  let strings := [hostname, domainname, windowsHosts, distributionName, plan9Socket, timezone].map
    orEmpty
  let bufferSize := (strings.map (·.length + 1)).sum
  let msgSize := initMessageSize + bufferSize
  let packed := strings.foldl Packing.put ⟨0, (List.range bufferSize).map heap, []⟩
  header LxInitMessageInitialize (msgSize % 2 ^ 32) seq.toNat ++
    fieldBytes (packed.offsets ++ [drvfsBitmap, drvfsOwner, featureFlags, drvfsMount]) ++ packed.buf

/-! ## What packing leaves in the buffer -/

@[simp] theorem length_fieldBytes (ws : List UInt32) : (fieldBytes ws).length = 4 * ws.length := by
  induction ws with
  | nil => rfl
  | cons w ws ih =>
    rw [fieldBytes, List.flatMap_cons, List.length_append, length_leBytes, List.length_cons]
    change 4 + (fieldBytes ws).length = _
    rw [ih]
    omega

theorem terminated_append (ss ts : List Bytes) :
    terminated (ss ++ ts) = terminated ss ++ terminated ts := by
  simp [terminated]

theorem terminated_cons (s : Bytes) (ss : List Bytes) :
    terminated (s :: ss) = s ++ 0 :: terminated ss := by
  simp [terminated]

theorem terminated_singleton (s : Bytes) : terminated [s] = s ++ [0] := by
  simp [terminated]

theorem length_terminated (ss : List Bytes) :
    (terminated ss).length = (ss.map (·.length + 1)).sum := by
  induction ss with
  | nil => rfl
  | cons s ss ih =>
    rw [terminated_cons, List.length_append, List.length_cons, ih, List.map_cons, List.sum_cons]
    omega

/-- The string `s` starts at `off` in `buf` and is terminated there. -/
def StartsAt (buf : Bytes) (off : UInt32) (s : Bytes) : Prop :=
  ∃ front back, buf = front ++ (s ++ 0 :: back) ∧ off.toNat = front.length

theorem StartsAt.append {buf s : Bytes} {off : UInt32} (h : StartsAt buf off s) (l : Bytes) :
    StartsAt (buf ++ l) off s := by
  obtain ⟨front, back, rfl, hoff⟩ := h
  exact ⟨front, back ++ l, by simp, hoff⟩

theorem StartsAt.extract {buf s : Bytes} {off : UInt32} (h : StartsAt buf off s) (hs : 0 ∉ s) :
    wslExtractString buf off = some s := by
  obtain ⟨front, back, rfl, hoff⟩ := h
  have hall : ∀ c ∈ s, decide (c ≠ 0) = true := by
    intro c hc
    exact decide_eq_true fun h0 => hs (h0 ▸ hc)
  unfold wslExtractString cString
  rw [if_neg (by simp [hoff]), hoff, List.drop_left, List.takeWhile_append_of_pos hall]
  simp

/-- The strings `ss` are packed at the front of the buffer. -/
structure Packing.Packs (p : Packing) (ss : List Bytes) : Prop where
  offset : p.offset.toNat = (terminated ss).length
  buf : terminated ss <+: p.buf
  offsets : List.Forall₂ (StartsAt (terminated ss)) p.offsets ss

theorem Packing.Packs.put {p : Packing} {ss : List Bytes} {s : Bytes} (h : p.Packs ss)
    (hfit : (terminated (ss ++ [s])).length < 2 ^ 32)
    (hroom : (terminated (ss ++ [s])).length ≤ p.buf.length) :
    (p.put s).Packs (ss ++ [s]) ∧ (p.put s).buf.length = p.buf.length := by
  rw [terminated_append, terminated_singleton, List.length_append, List.length_append,
    List.length_singleton] at hfit hroom
  obtain ⟨rest, hbuf⟩ := h.buf
  have hoff := h.offset
  have htake : p.buf.take p.offset.toNat = terminated ss := by rw [← hbuf, hoff, List.take_left]
  have hput : (p.put s).buf = terminated (ss ++ [s]) ++ p.buf.drop (p.offset.toNat + (s ++ [0]).length) := by
    rw [Packing.put, memcpy, htake, terminated_append, terminated_singleton]
  refine ⟨⟨?_, ?_, ?_⟩, ?_⟩
  · have hadd : (p.put s).offset.toNat = (p.offset.toNat + (s.length + 1) % 2 ^ 32) % 2 ^ 32 := by
      rw [Packing.put, UInt32.toNat_add, UInt32.toNat_ofNat']
    rw [hadd, hoff, terminated_append, terminated_singleton, List.length_append, List.length_append,
      List.length_singleton]
    omega
  · rw [hput]
    exact List.prefix_append _ _
  · rw [terminated_append, terminated_singleton]
    refine List.rel_append (h.offsets.imp fun off s hs => hs.append _) (List.Forall₂.cons ?_ .nil)
    exact ⟨terminated ss, [], rfl, hoff⟩
  · rw [hput, terminated_append, terminated_singleton]
    simp only [List.length_append, List.length_drop, List.length_singleton]
    omega

theorem Packing.Packs.foldl {p : Packing} {ss : List Bytes} (h : p.Packs ss) (todo : List Bytes)
    (hfit : (terminated (ss ++ todo)).length < 2 ^ 32)
    (hroom : (terminated (ss ++ todo)).length = p.buf.length) :
    (todo.foldl Packing.put p).Packs (ss ++ todo) ∧
      (todo.foldl Packing.put p).buf = terminated (ss ++ todo) := by
  induction todo generalizing p ss with
  | nil =>
    rw [List.append_nil] at hroom ⊢
    exact ⟨h, (h.buf.eq_of_length hroom).symm⟩
  | cons s todo ih =>
    have happ : ss ++ s :: todo = ss ++ [s] ++ todo := by simp
    rw [happ] at hfit hroom ⊢
    have hle : (terminated (ss ++ [s])).length ≤ (terminated (ss ++ [s] ++ todo)).length := by
      rw [terminated_append (ss ++ [s])]
      simp
    obtain ⟨hput, hlen⟩ := h.put (s := s) (by omega) (by omega)
    exact ih hput hfit (by rw [hlen, hroom])

/-! ## Reading back -/

theorem initField_fieldBytes {hd : Bytes} (hhd : hd.length = headerSize) {ws : List UInt32}
    {index : Nat} {w : UInt32} (hw : ws[index]? = some w) (buf : Bytes) :
    initField (hd ++ fieldBytes ws ++ buf) index = w := by
  obtain ⟨hlt, hget⟩ := List.getElem?_eq_some_iff.mp hw
  have hws : ws = ws.take index ++ w :: ws.drop (index + 1) := by
    rw [← hget, List.getElem_cons_drop, List.take_append_drop]
  have hmsg : hd ++ fieldBytes ws ++ buf = (hd ++ fieldBytes (ws.take index)) ++
      (leBytes 4 w.toNat ++ (fieldBytes (ws.drop (index + 1)) ++ buf)) := by
    conv_lhs => rw [hws]
    simp [fieldBytes]
  have hlen : (hd ++ fieldBytes (ws.take index)).length = headerSize + 4 * index := by
    rw [List.length_append, hhd, length_fieldBytes, List.length_take_of_le hlt.le]
  unfold initField
  rw [hmsg, leAt_append_leBytes hlen w.toNat_lt, UInt32.ofNat_toNat]

theorem wslExtractString_slice {buffer s : Bytes} {offset : UInt32}
    (h : wslExtractString buffer offset = some s) : s <:+: buffer ∧ 0 ∉ s := by
  unfold wslExtractString at h
  split at h
  · cases h
  · obtain rfl := Option.some.inj h
    refine ⟨?_, ?_⟩
    · exact (List.takeWhile_prefix _).isInfix.trans (List.drop_suffix _ _).isInfix
    · intro h0
      have hall := List.all_takeWhile (p := fun c : UInt8 => decide (c ≠ 0))
        (l := buffer.drop offset.toNat)
      have := List.all_eq_true.mp hall 0 h0
      simp at this

theorem wslConfigParse_append (cfg : WslConfig) {hd buf : Bytes} (hhd : hd.length = headerSize)
    (o₀ o₁ o₂ o₃ o₄ o₅ bitmap owner flags mount : UInt32) :
    wslConfigParse cfg
        (some (hd ++ fieldBytes [o₀, o₁, o₂, o₃, o₄, o₅, bitmap, owner, flags, mount] ++ buf)) =
      (0, ⟨wslExtractString buf o₀, wslExtractString buf o₁, wslExtractString buf o₂,
        wslExtractString buf o₃, wslExtractString buf o₄, wslExtractString buf o₅, bitmap, owner,
        flags, mount, mount = WSL_DRVFS_MOUNT_ELEVATED⟩) := by
  set ws := [o₀, o₁, o₂, o₃, o₄, o₅, bitmap, owner, flags, mount] with hws
  have hlen : (hd ++ fieldBytes ws).length = initMessageSize := by
    rw [List.length_append, hhd, length_fieldBytes]
    rfl
  have hbuf : (hd ++ fieldBytes ws ++ buf).drop initMessageSize = buf := by
    rw [← hlen, List.drop_left]
  unfold wslConfigParse
  dsimp only
  rw [if_neg (by simp only [List.length_append] at hlen ⊢; omega), hbuf]
  have hfield : ∀ {i w}, ws[i]? = some w → initField (hd ++ fieldBytes ws ++ buf) i = w :=
    fun hw => initField_fieldBytes hhd hw buf
  rw [hfield (i := 0) rfl, hfield (i := 1) rfl, hfield (i := 2) rfl, hfield (i := 3) rfl,
    hfield (i := 4) rfl, hfield (i := 5) rfl, hfield (i := 6) rfl, hfield (i := 7) rfl,
    hfield (i := 8) rfl, hfield (i := 9) rfl]

theorem wslConfigParse_build (cfg : WslConfig) (heap : Nat → UInt8)
    (hostname domainname windowsHosts distributionName plan9Socket timezone : Option CStr)
    (bitmap owner flags mount seq : UInt32)
    (hsize : initMessageSize + (([hostname, domainname, windowsHosts, distributionName, plan9Socket,
      timezone].map orEmpty).map (·.length + 1)).sum < 2 ^ 32) :
    wslConfigParse cfg (some (wslConfigBuildMessage heap hostname domainname windowsHosts
        distributionName plan9Socket timezone bitmap owner flags mount seq)) =
      (0, ⟨some (orEmpty hostname), some (orEmpty domainname), some (orEmpty windowsHosts),
        some (orEmpty distributionName), some (orEmpty plan9Socket), some (orEmpty timezone), bitmap,
        owner, flags, mount, mount = WSL_DRVFS_MOUNT_ELEVATED⟩) := by
  set strings := [hostname, domainname, windowsHosts, distributionName, plan9Socket, timezone].map
    orEmpty with hstrings
  set start : Packing := ⟨0, (List.range (strings.map (·.length + 1)).sum).map heap, []⟩ with hstart
  have hzero : start.Packs [] := ⟨rfl, List.nil_prefix, .nil⟩
  obtain ⟨hpacks, hbuf⟩ := hzero.foldl strings
    (by rw [List.nil_append, length_terminated]; omega)
    (by rw [List.nil_append, length_terminated, hstart, List.length_map, List.length_range])
  rw [List.nil_append] at hpacks hbuf
  have hread := hpacks.offsets
  have hform : wslConfigBuildMessage heap hostname domainname windowsHosts distributionName
      plan9Socket timezone bitmap owner flags mount seq =
    header LxInitMessageInitialize ((initMessageSize + (strings.map (·.length + 1)).sum) % 2 ^ 32)
        seq.toNat ++
      fieldBytes ((strings.foldl Packing.put start).offsets ++ [bitmap, owner, flags, mount]) ++
      terminated strings := by
    rw [← hbuf]
    rfl
  -- the six recorded offsets, each with the string that starts there
  generalize (strings.foldl Packing.put start).offsets = offsets at hread hform
  simp only [hstrings, List.map_cons, List.map_nil, List.forall₂_cons_right_iff,
    List.forall₂_nil_right_iff] at hread
  obtain ⟨o₀, _, h₀, ⟨o₁, _, h₁, ⟨o₂, _, h₂, ⟨o₃, _, h₃, ⟨o₄, _, h₄, ⟨o₅, _, h₅, rfl, rfl⟩, rfl⟩,
    rfl⟩, rfl⟩, rfl⟩, rfl⟩ := hread
  have hnul : ∀ s : Option CStr, 0 ∉ orEmpty s := by
    intro s
    cases s with
    | none => simp [orEmpty]
    | some s => exact s.2
  rw [hform, List.cons_append, List.cons_append, List.cons_append, List.cons_append,
    List.cons_append, List.cons_append, List.nil_append, wslConfigParse_append cfg (length_header _ _ _)]
  rw [hstrings, List.map_cons, List.map_cons, List.map_cons, List.map_cons, List.map_cons,
    List.map_cons, List.map_nil, h₀.extract (hnul _), h₁.extract (hnul _), h₂.extract (hnul _),
    h₃.extract (hnul _), h₄.extract (hnul _), h₅.extract (hnul _)]

/-- Parsing what was built returns 0 and recovers every string and scalar; and for every message
of at least the fixed size, parsing succeeds, depends on nothing but the message, and every string
is absent or a NUL-free slice of the message's buffer. -/
theorem wslConfigParse_spec :
    (∀ (cfg : WslConfig) (heap : Nat → UInt8)
      (hostname domainname windowsHosts distributionName plan9Socket timezone : CStr)
      (bitmap owner flags mount seq : UInt32),
      initMessageSize + (([hostname, domainname, windowsHosts, distributionName, plan9Socket,
        timezone] : List CStr).map (·.val.length + 1)).sum < 2 ^ 32 →
      wslConfigParse cfg (some (wslConfigBuildMessage heap (some hostname) (some domainname)
          (some windowsHosts) (some distributionName) (some plan9Socket) (some timezone) bitmap owner
          flags mount seq)) =
        (0,
          { hostname := some hostname.val
            domainname := some domainname.val
            windowsHosts := some windowsHosts.val
            distributionName := some distributionName.val
            plan9SocketPath := some plan9Socket.val
            timezone := some timezone.val
            drvfsVolumesBitmap := bitmap
            drvfsDefaultOwner := owner
            featureFlags := flags
            drvfsMount := mount
            drvfsElevated := mount = WSL_DRVFS_MOUNT_ELEVATED })) ∧
    ∀ msg : Bytes, initMessageSize ≤ msg.length →
      ∃ parsed : WslConfig, (∀ cfg, wslConfigParse cfg (some msg) = (0, parsed)) ∧
        ∀ field ∈ parsed.strings, ∀ s, field = some s → s <:+: msg.drop initMessageSize ∧ 0 ∉ s := by
  refine ⟨?_, ?_⟩
  · intro cfg heap hostname domainname windowsHosts distributionName plan9Socket timezone bitmap
      owner flags mount seq hsize
    exact wslConfigParse_build cfg heap (some hostname) (some domainname) (some windowsHosts)
      (some distributionName) (some plan9Socket) (some timezone) bitmap owner flags mount seq hsize
  · intro msg hmsg
    refine ⟨(wslConfigParse wslConfigInit (some msg)).2, ?_, ?_⟩
    · intro cfg
      simp only [wslConfigParse, if_neg (Nat.not_lt.mpr hmsg)]
    · intro field hfield s hs
      simp only [wslConfigParse, if_neg (Nat.not_lt.mpr hmsg), WslConfig.strings, List.mem_cons,
        List.not_mem_nil, or_false] at hfield
      have hex : ∃ offset, field = wslExtractString (msg.drop initMessageSize) offset := by
        rcases hfield with h | h | h | h | h | h <;> exact ⟨_, h⟩
      obtain ⟨offset, rfl⟩ := hex
      exact wslExtractString_slice hs

/-- Two of the strings are empty. -/
theorem wslConfigParse_spec_freebsd :
    wslConfigParse wslConfigInit (some (wslConfigBuildMessage (fun _ => 0xAA)
        (some ⟨ascii "bsd", by decide⟩) (some ⟨[], by decide⟩) (some ⟨[], by decide⟩)
        (some ⟨ascii "FreeBSD", by decide⟩) (some ⟨ascii "/run/p9", by decide⟩)
        (some ⟨ascii "UTC", by decide⟩) 4 1000 0x20 2 1)) =
      (0,
        { hostname := some (ascii "bsd"), domainname := some [], windowsHosts := some []
          distributionName := some (ascii "FreeBSD"), plan9SocketPath := some (ascii "/run/p9")
          timezone := some (ascii "UTC"), drvfsVolumesBitmap := 4, drvfsDefaultOwner := 1000
          featureFlags := 0x20, drvfsMount := 2, drvfsElevated := true }) :=
  wslConfigParse_spec.1 _ _ ⟨_, _⟩ ⟨_, _⟩ ⟨_, _⟩ ⟨_, _⟩ ⟨_, _⟩ ⟨_, _⟩ 4 1000 0x20 2 1 (by decide)

end WslFreeBSD.Config
