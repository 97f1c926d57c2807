import Mathlib.Logic.Function.Basic
import WslFreeBSD.Bridge.Oversized
import WslFreeBSD.Hvinit.Main
import WslFreeBSD.Hvinit.Replies

/-!
# Two handlers for one message

`NetworkInformation` and `TimezoneInformation` are handled by `hvinit` on the init channel and by
`hvbridge` on the control channel of a session. `session_files_iff` says for which messages and
configurations both leave the same in `/etc/resolv.conf`, `/etc/localtime` and `/etc/timezone`.

The calls are those that succeed. A file is what is found under a path; links are recorded where
the programs make them.
-/

namespace WslFreeBSD.Hvinit

open Lib Protocol Config
open Bridge (Session Act Arrived messagePass controlBufSize)

/-! ## Files -/

inductive Node where
  | contents (bytes : Bytes)
  | link (target : Bytes)
  deriving DecidableEq, Repr

abbrev Files := Bytes → Option Node

/-- The calls that change files. -/
inductive FileCall where
  | write (path contents : Bytes)
  | rename (source target : Bytes)
  | unlink (path : Bytes)
  | symlink (target path : Bytes)
  deriving DecidableEq, Repr

def FileCall.apply (fs : Files) : FileCall → Files
  | .write path contents => Function.update fs path (some (.contents contents))
  | .rename source target => Function.update (Function.update fs target (fs source)) source none
  | .unlink path => Function.update fs path none
  | .symlink target path => Function.update fs path (some (.link target))

def RESOLV_CONF_FILE : Bytes := ascii "/etc/resolv.conf"

/-- Two lists of calls leave the same in the three files, whatever was there before. -/
def SameEffect (cs cs' : List FileCall) : Prop :=
  ∀ fs : Files, ∀ path ∈ [RESOLV_CONF_FILE, TZ_LOCALTIME_FILE, TZ_SETTING_FILE],
    cs.foldl FileCall.apply fs path = cs'.foldl FileCall.apply fs path

theorem sameEffect_replace {tmp contents contents' : Bytes}
    (htmp : tmp ∉ [RESOLV_CONF_FILE, TZ_LOCALTIME_FILE, TZ_SETTING_FILE]) :
    SameEffect [.write tmp contents, .rename tmp RESOLV_CONF_FILE]
      [.write RESOLV_CONF_FILE contents'] ↔ contents = contents' := by
  constructor
  · intro h
    have hresolv := h (fun _ => none) RESOLV_CONF_FILE (by simp)
    have hne : RESOLV_CONF_FILE ≠ tmp := fun heq => htmp (heq ▸ by simp)
    simpa [FileCall.apply, Function.update_of_ne hne] using hresolv
  · rintro rfl fs path hpath
    have hne : path ≠ tmp := fun heq => htmp (heq ▸ hpath)
    by_cases hresolv : path = RESOLV_CONF_FILE
    · subst hresolv
      simp [FileCall.apply, Function.update_of_ne hne]
    · simp [FileCall.apply, Function.update_of_ne hne, Function.update_of_ne hresolv]

theorem not_sameEffect_nil {cs : List FileCall} (path : Bytes)
    (hpath : path ∈ [RESOLV_CONF_FILE, TZ_LOCALTIME_FILE, TZ_SETTING_FILE])
    (h : cs.foldl FileCall.apply (fun _ => none) path ≠ none) : ¬ SameEffect cs [] :=
  fun heq => h (heq (fun _ => none) path hpath)

theorem SameEffect.symm {cs cs' : List FileCall} (h : SameEffect cs cs') : SameEffect cs' cs :=
  fun fs path hpath => (h fs path hpath).symm

theorem sameEffect_refl (cs : List FileCall) : SameEffect cs cs := fun _ _ _ => rfl

/-! ## What the two programs do -/

def initCall : (Σ e, Op.Answer e) → Option FileCall
  | ⟨.writeFile path contents, .written⟩ => some (.write path contents)
  | ⟨.rename source target, true⟩ => some (.rename source target)
  | ⟨.unlink path, _⟩ => some (.unlink path)
  | ⟨.symlink target path, true⟩ => some (.symlink target path)
  | _ => none

def initCalls (t : InitTrace) : List FileCall := t.filterMap initCall

def sessionCall : Act → Option FileCall
  | .resolvConf contents => some (.write RESOLV_CONF_FILE contents)
  | .unlinkLocaltime => some (.unlink TZ_LOCALTIME_FILE)
  | .symlinkLocaltime target => some (.symlink target TZ_LOCALTIME_FILE)
  | _ => none

def sessionCalls (t : List Act) : List FileCall := t.filterMap sessionCall

/-- The calls of `hvinit` succeed; `zones` are the paths that exist. -/
structure FilesWork (env : InitEnvironment) (zones : Bytes → Bool) : Prop where
  write : ∀ t path contents, env t (.writeFile path contents) = .written
  rename : ∀ t source target, env t (.rename source target) = true
  symlink : ∀ t target path, env t (.symlink target path) = true
  access : ∀ t path, env t (.access path) = zones path

/-- The globals after `Initialize`. -/
structure Configured (g : Globals) : Prop where
  generateResolvconf : g.generateResolvconf = g.flag .networkGenerateResolvconf
  resolvconfPath : g.resolvconfPath = RESOLV_CONF_FILE

/-- `Initialize` takes the setting from the configuration file, ... -/
theorem configured_handleInitialize {g : Globals} (hg : g.resolvconfPath = RESOLV_CONF_FILE)
    (msg : Bytes) : (handleInitialize g msg).Ensures fun g' _ => Configured g' := by
  refine Program.ensures_bind.mpr ((loadSettings_eq g msg).mono ?_)
  rintro _ _ ⟨config, wslConf, rfl⟩
  refine Program.Ensures.value fun _ => Program.Ensures.value fun _ => ?_
  refine Program.Ensures.value fun mounted => Program.Ensures.value fun _ => ?_
  refine Program.Ensures.value fun _ => Program.Ensures.value fun server => ?_
  exact Program.Ensures.value fun _ => ⟨rfl, hg⟩

theorem configured_dispatch (notifyOpen : Bool) {g : Globals} (hg : Configured g) (m : Bytes) :
    (dispatch notifyOpen g m).Ensures fun g' _ => Configured g' := by
  have hkeep : ∀ h, (keep g h).Ensures fun g' _ => Configured g' := fun h =>
    Program.Ensures.value fun _ => hg
  refine dispatch_cases notifyOpen g m (P := fun p => p.Ensures fun g' _ => Configured g')
    (fun _ => ?_) ?_ ?_ (hkeep _) (fun h _ => hkeep h) hg
  · refine Program.Ensures.value fun _ => Program.Ensures.value fun gnsPid => ?_
    refine Program.Ensures.value fun plan9 => Program.Ensures.value fun _ => ?_
    exact Program.Ensures.value fun _ => ⟨hg.generateResolvconf, hg.resolvconfPath⟩
  · refine iteInduction (motive := fun p => Program.Ensures p fun g' _ => Configured g')
      (fun _ => Program.Ensures.value fun _ => hg) fun _ => ?_
    refine Program.Ensures.value fun out => Program.Ensures.value fun _ => ?_
    exact ⟨hg.generateResolvconf, hg.resolvconfPath⟩
  · refine iteInduction (motive := fun p => Program.Ensures p fun g' _ => Configured g')
      (fun _ => Program.Ensures.value fun _ => hg) fun _ => ?_
    refine Program.Ensures.value fun out => Program.Ensures.value fun _ => ?_
    exact ⟨hg.generateResolvconf, hg.resolvconfPath⟩

/-- ... and the event loop leaves it as it is. -/
theorem configured_loopInvariant (env : InitEnvironment) :
    LoopInvariant env (fun s => Configured s.globals) (fun s => Configured s.globals) := by
  have hdispatch : ∀ (s : Init) m, Configured s.globals →
      Configured (s.exec env (dispatch s.notifyOpen · m)).globals := fun s m hs =>
    ((configured_dispatch s.notifyOpen hs m).run env s.trace).choose_spec.2
  exact ⟨fun _ _ hs => hs, fun _ hs => hs, fun s m _ hs => hdispatch s m hs,
    fun s m _ hs => hdispatch s m hs⟩

/-! ## The init channel -/

/-- What is written for a `NetworkInformation` message. -/
def resolvConfText (m : Bytes) : Bytes := ((fileContents m).map withNewline).getD []

def RESOLV_CONF_TMP : Bytes := ascii "/etc/resolv.conf.tmp"

/-- The calls of `gns_handle_network_information`. -/
def networkCalls (generate : Bool) (m : Bytes) : List FileCall :=
  if messageSize m ≤ 20 ∨ ¬ generate then []
  else [.write RESOLV_CONF_TMP (resolvConfText m), .rename RESOLV_CONF_TMP RESOLV_CONF_FILE]

/-- A zone is applied if time zones are, and if it has a name and a file. -/
def Applied (zones : Bytes → Bool) (autoUpdate : Bool) (zone : Bytes) : Prop :=
  autoUpdate = true ∧ zone ≠ [] ∧ (TZ_ZONEINFO_BASE ++ zone).length < 256 ∧
    zones (TZ_ZONEINFO_BASE ++ zone) = true

instance (zones : Bytes → Bool) (autoUpdate : Bool) (zone : Bytes) :
    Decidable (Applied zones autoUpdate zone) :=
  inferInstanceAs (Decidable (_ ∧ _ ∧ _ ∧ _))

/-- The calls of `timezone_apply`. -/
def zoneCalls (zone : Bytes) : List FileCall :=
  [.unlink TZ_LOCALTIME_FILE, .symlink (TZ_ZONEINFO_BASE ++ zone) TZ_LOCALTIME_FILE,
    .write TZ_SETTING_FILE (zone ++ [10])]

/-- The calls of `timezone_handle_message`. -/
def timezoneCalls (zones : Bytes → Bool) (autoUpdate : Bool) (m : Bytes) : List FileCall :=
  match messageTimezone m with
  | none => []
  | some zone => if Applied zones autoUpdate zone then zoneCalls zone else []

section InitChannel

variable {env : InitEnvironment} {zones : Bytes → Bool} (henv : FilesWork env zones) (t : InitTrace)

theorem initCalls_append (t u : InitTrace) : initCalls (t ++ u) = initCalls t ++ initCalls u :=
  List.filterMap_append

include henv in
theorem initCalls_gnsHandleNetworkInformation (generate : Bool) (m : Bytes) :
    initCalls ((gnsHandleNetworkInformation generate RESOLV_CONF_FILE m).run env t).2 =
      initCalls t ++ networkCalls generate m := by
  unfold gnsHandleNetworkInformation networkCalls
  split
  · exact (List.append_nil _).symm
  · dsimp only
    rw [Program.run_perform_bind, henv.write]
    dsimp only
    rw [Program.run_perform_bind, henv.rename, if_neg (by simp)]
    change initCalls (t ++ [_] ++ [_]) = _
    rw [initCalls_append, initCalls_append, List.append_assoc]
    rfl

include henv in
theorem initCalls_timezoneApply (zone : Bytes) (autoUpdate : Bool) :
    initCalls ((timezoneApply (some zone) autoUpdate).run env t).2 =
      initCalls t ++ if Applied zones autoUpdate zone then zoneCalls zone else [] := by
  unfold timezoneApply
  by_cases hempty : zone = []
  · subst hempty
    rw [if_neg fun h => h.2.1 rfl]
    exact (List.append_nil _).symm
  · rw [show nonEmpty (some zone) = some zone from Option.filter_some_pos (by simpa using hempty)]
    dsimp only
    by_cases hskip : ¬ autoUpdate ∨ 256 ≤ (TZ_ZONEINFO_BASE ++ zone).length
    · rw [if_pos hskip, if_neg]
      · exact (List.append_nil _).symm
      · rintro ⟨hauto, -, hlen, -⟩
        rcases hskip with h | h
        · exact h hauto
        · omega
    · obtain ⟨hauto, hlen⟩ := not_or.mp hskip
      rw [if_neg hskip, Program.run_perform_bind, henv.access]
      cases hfound : zones (TZ_ZONEINFO_BASE ++ zone) with
      | false =>
        rw [if_neg (by simp), if_neg fun h => by simpa [hfound] using h.2.2.2]
        change initCalls (t ++ [_]) = _
        rw [initCalls_append]
        rfl
      | true =>
        have happlied : Applied zones autoUpdate zone :=
          ⟨not_not.mp hauto, hempty, Nat.lt_of_not_le hlen, hfound⟩
        rw [if_pos rfl, if_pos happlied, Program.run_perform_bind, Program.run_perform_bind,
          henv.symlink, if_pos rfl, Program.run_perform_bind, henv.write]
        change initCalls (t ++ [_] ++ [_] ++ [_] ++ [_] ++ [_]) = _
        simp only [initCalls_append, List.append_assoc]
        rfl

include henv in
theorem initCalls_timezoneHandleMessage (autoUpdate : Bool) (m : Bytes) :
    initCalls ((timezoneHandleMessage m autoUpdate).run env t).2 =
      initCalls t ++ timezoneCalls zones autoUpdate m := by
  unfold timezoneHandleMessage timezoneCalls
  cases messageTimezone m with
  | none => exact (List.append_nil _).symm
  | some zone => exact initCalls_timezoneApply henv t zone autoUpdate

def IsShared (m : Bytes) : Prop :=
  messageType m = LxInitMessageNetworkInformation ∨ messageType m = LxInitMessageTimezoneInformation

/-- The calls of `hvinit` for a message. -/
def initMessageCalls (zones : Bytes → Bool) (g : Globals) (m : Bytes) : List FileCall :=
  if messageType m = LxInitMessageNetworkInformation then
    networkCalls (g.flag .networkGenerateResolvconf) m
  else timezoneCalls zones (g.flag .timeUseWindowsTimezone) m

include henv in
theorem initCalls_dispatch (notifyOpen : Bool) {g : Globals} (hg : Configured g) {m : Bytes}
    (htype : IsShared m) : initCalls ((dispatch notifyOpen g m).run env t).2 =
      initCalls t ++ initMessageCalls zones g m := by
  have hkeep : ∀ h : InitProgram Unit, ((keep g h).run env t).2 = (h.run env t).2 := fun h => by
    rw [keep, Program.run_bind]
    rfl
  unfold initMessageCalls
  rcases htype with htype | htype
  · rw [if_pos htype, ← initCalls_gnsHandleNetworkInformation henv, ← hg.generateResolvconf,
      ← hg.resolvconfPath]
    simp only [dispatch, htype]
    exact congrArg initCalls (hkeep _)
  · rw [if_neg (by rw [htype]; decide), ← initCalls_timezoneHandleMessage henv]
    simp only [dispatch, htype]
    exact congrArg initCalls (hkeep _)

include henv in
theorem initCalls_receive {s : Init} (hs : Configured s.globals) {m : Bytes}
    (hm : messageFormat.WellFormed m) (htype : IsShared m) (hin : s.incoming = m) :
    initCalls (Init.stateOf (s.receive env true)).trace =
      initCalls s.trace ++ initMessageCalls zones s.globals m := by
  have hterm : isTerminate m = false := by
    rcases htype with htype | htype <;> rw [isTerminate, htype] <;> rfl
  have hin' : s.incoming = m ++ [] := hin.trans (List.append_nil m).symm
  rw [Init.receive_message env hm hin', hterm, if_neg Bool.false_ne_true]
  exact initCalls_dispatch henv s.trace s.notifyOpen hs htype

end InitChannel

/-! ## The session -/

/-- The calls of `run_session` for a message that fits its buffer. -/
def sessionMessageCalls (m : Bytes) : List FileCall :=
  if messageType m = LxInitMessageNetworkInformation then
    if 20 ≤ messageSize m ∧ leAt 16 4 m < messageSize m - 20 then
      [.write RESOLV_CONF_FILE (cString m (20 + leAt 16 4 m))]
    else []
  else if 16 ≤ messageSize m ∧ leAt 12 4 m < messageSize m - 16 then
    [.unlink TZ_LOCALTIME_FILE, .symlink
      ((TZ_ZONEINFO_BASE ++ cString m (16 + leAt 12 4 m)).take 255) TZ_LOCALTIME_FILE]
  else []

theorem sessionCalls_append (t u : List Act) :
    sessionCalls (t ++ u) = sessionCalls t ++ sessionCalls u := List.filterMap_append

theorem sessionCalls_timers (b : Session) (i : Bridge.Pass) :
    sessionCalls (b.timers i).trace = sessionCalls b.trace := by
  have hsize : ∀ s : Session, sessionCalls (s.sizeCheckActs i) = [] := fun s =>
    List.filterMap_eq_nil_iff.mpr fun a ha => by
      obtain ⟨rows, cols, rfl⟩ := Bridge.mem_sizeCheckActs ha
      rfl
  obtain ⟨acts, hacts, hescalate⟩ :=
    Bridge.trace_escalate ({ b with trace := b.trace ++ [.now i.now] } : Session) i
  have hnone : sessionCalls acts = [] := List.filterMap_eq_nil_iff.mpr fun a ha => by
    obtain rfl | ⟨status, rfl⟩ := hescalate a ha <;> rfl
  change sessionCalls ((Session.escalate _ i).trace ++ _) = _
  rw [sessionCalls_append, hsize, hacts, sessionCalls_append, hnone, sessionCalls_append]
  simp only [List.append_nil]
  exact List.append_nil _

theorem trace_channels (b : Session) (cfg : Bridge.Setup) (i : Bridge.Pass) :
    (b.channels cfg { control := true } i).trace = (b.controlBranch { control := true } i).trace := by
  simp [Session.channels, Session.stdinBranch, Session.stdinActs, Session.stdinReady,
    Session.ptyBranch, Session.ptyActs, Session.channelBranch, Session.channelActs,
    Session.interopBranch, Session.localBranch, Session.localActs]

theorem cString_append {m : Bytes} {off : Nat} (h : 0 ∈ m.drop off) (rest : Bytes) :
    cString (m ++ rest) off = cString m off := by
  have hlt := length_cString_lt h
  unfold cString at hlt ⊢
  rw [List.drop_append_of_le_length (by omega), List.takeWhile_append, if_neg]
  rw [List.length_drop]
  omega

theorem HostMessage.fileContents_mem {m : Bytes} (hm : HostMessage m)
    (htype : messageType m = LxInitMessageNetworkInformation) (h : leAt 16 4 m < m.length - 20) :
    0 ∈ m.drop (20 + leAt 16 4 m) := by
  refine hm.strings _ ?_ (by omega)
  rw [stringOffsets, if_pos htype]
  simp

theorem HostMessage.timezone_mem {m : Bytes} (hm : HostMessage m)
    (htype : messageType m = LxInitMessageTimezoneInformation) (h : leAt 12 4 m < m.length - 16) :
    0 ∈ m.drop (16 + leAt 12 4 m) := by
  refine hm.strings _ ?_ (by omega)
  rw [stringOffsets, if_neg (by rw [htype]; decide), if_pos htype]
  simp

theorem sessionCalls_controlDispatch {m : Bytes} (hm : HostMessage m) (htype : IsShared m)
    (rest : Bytes) (fst : Bridge.FontSizeTracker) (pty : Bridge.Winsize) (x : Bytes) :
    (Bridge.controlDispatch (m ++ rest) fst pty (messagePass x)).terminate = false ∧
      sessionCalls (Bridge.controlDispatch (m ++ rest) fst pty (messagePass x)).acts =
        sessionMessageCalls m := by
  have hlen : 12 ≤ m.length := hm.wellFormed.1
  have hfield : ∀ off n, off + n ≤ m.length → leAt off n (m ++ rest) = leAt off n m :=
    fun off n h => leAt_append_of_le h rest
  have hsize : messageSize m = m.length := hm.wellFormed.2
  have hmemType : messageType (m ++ rest) = messageType m := hfield 0 4 (by omega)
  have hmemSize : messageSize (m ++ rest) = m.length := (hfield 4 4 (by omega)).trans hsize
  unfold sessionMessageCalls
  rcases htype with htype | htype
  · rw [htype] at hmemType
    simp only [Bridge.controlDispatch, hmemType, htype, hmemSize, hsize]
    refine ⟨rfl, ?_⟩
    by_cases h : 20 ≤ m.length
    · rw [hfield 16 4 (by omega)]
      by_cases hidx : leAt 16 4 m < m.length - 20
      · rw [cString_append (hm.fileContents_mem htype hidx)]
        simp [h, hidx, messagePass]
        rfl
      · simp [h, hidx]
        rfl
    · simp [h]
      rfl
  · rw [htype] at hmemType
    simp only [Bridge.controlDispatch, hmemType, htype, hmemSize, hsize]
    refine ⟨rfl, ?_⟩
    by_cases h : 16 ≤ m.length
    · rw [hfield 12 4 (by omega)]
      by_cases hoff : leAt 12 4 m < m.length - 16
      · rw [cString_append (hm.timezone_mem htype hoff)]
        simp [h, hoff, messagePass]
        rfl
      · simp [h, hoff]
        rfl
    · simp [h]
      rfl

theorem sessionCalls_recvActs (r : Option Bridge.RecvResult) :
    sessionCalls (Session.recvActs .control r) = [] := by
  cases r <;> rfl

theorem sessionCalls_controlBranch {x m : Bytes} {b : Session} (h : Arrived x m b)
    (hm : HostMessage m) (htype : IsShared m) :
    sessionCalls (b.controlBranch { control := true } (messagePass m)).trace =
      sessionCalls b.trace ++ if m.length ≤ controlBufSize then sessionMessageCalls m else [] := by
  have hdisconnect : ∀ (s : Session) time, sessionCalls (s.disconnect time).trace =
      sessionCalls s.trace := by
    intro s time
    obtain ⟨acts, hacts, hmem⟩ := Bridge.trace_disconnect s time
    have hnone : sessionCalls acts = [] := List.filterMap_eq_nil_iff.mpr fun a ha => by
      obtain rfl | rfl := hmem a ha <;> rfl
    rw [hacts, sessionCalls_append, hnone, List.append_nil]
  unfold Session.controlBranch
  rw [if_neg (by simp [h.connected])]
  dsimp only
  have hrecv : (messagePass m).controlRecv = .upTo 511 := rfl
  rw [hrecv]
  by_cases hfit : m.length ≤ controlBufSize
  · obtain ⟨hvalid, hcode⟩ := Bridge.arrived_next h hm.wellFormed hfit
    change (Bridge.controlTryRead b.cr b.controlIn (.upTo 511)).code = .message at hcode
    change (Bridge.controlTryRead b.cr b.controlIn (.upTo 511)).reader.valid = m at hvalid
    rw [hcode, if_pos hfit]
    generalize Bridge.controlTryRead b.cr b.controlIn (.upTo 511) = out at hvalid ⊢
    have hbuf : (b.controlReceived out).cr.buf = m ++ out.reader.buf.drop out.reader.len := by
      rw [← hvalid]
      exact (List.take_append_drop out.reader.len out.reader.buf).symm
    obtain ⟨hterm, hcalls⟩ := sessionCalls_controlDispatch hm htype
      (out.reader.buf.drop out.reader.len) (b.controlReceived out).fst (b.controlReceived out).pty m
    dsimp only
    rw [← hbuf] at hterm hcalls
    rw [if_neg (by rw [hterm]; exact Bool.false_ne_true)]
    change sessionCalls ((b.trace ++ Session.recvActs .control out.recvd) ++ (_ :: _)) = _
    rw [sessionCalls_append, sessionCalls_append, sessionCalls_recvActs, List.append_nil, ← hcalls]
    rfl
  · have hcode := Bridge.arrived_oversized h hm.wellFormed (Nat.lt_of_not_le hfit)
    change (Bridge.controlTryRead b.cr b.controlIn (.upTo 511)).code = .error at hcode
    rw [hcode, if_neg hfit, hdisconnect]
    change sessionCalls (b.trace ++ Session.recvActs .control _) = _
    rw [sessionCalls_append, sessionCalls_recvActs]

theorem sessionCalls_iterate {x m : Bytes} {b : Session} (h : Arrived x [] b) (hm : HostMessage m)
    (htype : IsShared m) (cfg : Bridge.Setup) : ∃ b',
    Session.iterate cfg b (messagePass m) = .inl b' ∧ sessionCalls b'.trace =
      sessionCalls b.trace ++ if m.length ≤ controlBufSize then sessionMessageCalls m else [] := by
  refine ⟨_, Bridge.iterate_messagePass h cfg m, ?_⟩
  rw [trace_channels, sessionCalls_controlBranch (Bridge.arrived_timers h cfg) hm htype,
    sessionCalls_timers]
  change sessionCalls (b.trace ++ [_]) ++ _ = _
  rw [sessionCalls_append]
  exact congrArg (· ++ _) (List.append_nil _)

/-! ## Agreement -/

/-- Nothing is written for the message, or the same text: the contents are there, fit the buffer of
the session and need no newline. -/
def ResolverAgrees (generate : Bool) (m : Bytes) : Prop :=
  m.length ≤ 20 ∨
  generate = false ∧ (m.length - 20 ≤ leAt 16 4 m ∨ controlBufSize < m.length) ∨
  generate = true ∧ leAt 16 4 m < m.length - 20 ∧ m.length ≤ controlBufSize ∧
    (cString m (20 + leAt 16 4 m) = [] ∨ (cString m (20 + leAt 16 4 m)).getLast? = some 10)

/-- There is no zone in the message, or neither channel applies it. -/
def ZoneAgrees (zones : Bytes → Bool) (autoUpdate : Bool) (m : Bytes) : Prop :=
  m.length ≤ 16 ∨ m.length - 16 ≤ leAt 12 4 m ∨
  controlBufSize < m.length ∧ ¬ Applied zones autoUpdate (cString m (16 + leAt 12 4 m))

def MessageAgrees (zones : Bytes → Bool) (g : Globals) (m : Bytes) : Prop :=
  if messageType m = LxInitMessageNetworkInformation then
    ResolverAgrees (g.flag .networkGenerateResolvconf) m
  else ZoneAgrees zones (g.flag .timeUseWindowsTimezone) m

theorem withNewline_eq_self_iff (text : Bytes) :
    withNewline text = text ↔ text = [] ∨ text.getLast? = some 10 := by
  unfold withNewline
  split
  · rename_i h
    exact iff_of_false (by simp) (not_or.mpr h)
  · rename_i h
    exact iff_of_true rfl (by simpa [or_iff_not_imp_left] using h)

theorem not_sameEffect_network {m : Bytes} : ¬ SameEffect
    [.write RESOLV_CONF_TMP (resolvConfText m), .rename RESOLV_CONF_TMP RESOLV_CONF_FILE] [] := by
  refine not_sameEffect_nil RESOLV_CONF_FILE (by simp) ?_
  have hne : RESOLV_CONF_FILE ≠ RESOLV_CONF_TMP := by decide
  simp [FileCall.apply, Function.update_of_ne hne]

theorem not_sameEffect_resolvConf (contents : Bytes) :
    ¬ SameEffect [] [.write RESOLV_CONF_FILE contents] := fun h =>
  not_sameEffect_nil RESOLV_CONF_FILE (by simp) (by simp [FileCall.apply]) h.symm

theorem networkCalls_eq_nil {generate : Bool} {m : Bytes} (h : messageSize m ≤ 20 ∨ generate = false) :
    networkCalls generate m = [] :=
  if_pos (h.imp_right fun h => by simp [h])

theorem networkCalls_of_generate {m : Bytes} (h : 20 < messageSize m) : networkCalls true m =
    [.write RESOLV_CONF_TMP (resolvConfText m), .rename RESOLV_CONF_TMP RESOLV_CONF_FILE] :=
  if_neg (by simpa using h)

theorem ite_fits {fits header inside : Prop} [Decidable fits] [Decidable header] [Decidable inside]
    (h : inside → header) (cs : List FileCall) :
    (if fits then if header ∧ inside then cs else [] else []) = if fits ∧ inside then cs else [] := by
  by_cases hfits : fits
  · rw [if_pos hfits]
    exact if_congr ⟨fun h => ⟨hfits, h.2⟩, fun hin => ⟨h hin.2, hin.2⟩⟩ rfl rfl
  · rw [if_neg hfits, if_neg fun h => hfits h.1]

theorem sessionMessageCalls_network {m : Bytes} (hm : messageFormat.WellFormed m)
    (htype : messageType m = LxInitMessageNetworkInformation) :
    (if m.length ≤ controlBufSize then sessionMessageCalls m else []) =
      if m.length ≤ controlBufSize ∧ leAt 16 4 m < m.length - 20 then
        [.write RESOLV_CONF_FILE (cString m (20 + leAt 16 4 m))] else [] := by
  have hsize : messageSize m = m.length := hm.2
  unfold sessionMessageCalls
  rw [if_pos htype, hsize]
  exact ite_fits (by omega) _

theorem sessionMessageCalls_timezone {m : Bytes} (hm : messageFormat.WellFormed m)
    (htype : messageType m = LxInitMessageTimezoneInformation) :
    (if m.length ≤ controlBufSize then sessionMessageCalls m else []) =
      if m.length ≤ controlBufSize ∧ leAt 12 4 m < m.length - 16 then
        [.unlink TZ_LOCALTIME_FILE, .symlink
          ((TZ_ZONEINFO_BASE ++ cString m (16 + leAt 12 4 m)).take 255) TZ_LOCALTIME_FILE]
      else [] := by
  have hsize : messageSize m = m.length := hm.2
  have hne : ¬ messageType m = LxInitMessageNetworkInformation := by
    rw [htype]
    decide
  unfold sessionMessageCalls
  rw [if_neg hne, hsize]
  exact ite_fits (by omega) _

theorem sameEffect_network_iff {m : Bytes} (hm : messageFormat.WellFormed m)
    (htype : messageType m = LxInitMessageNetworkInformation) (generate : Bool) :
    SameEffect (networkCalls generate m)
      (if m.length ≤ controlBufSize then sessionMessageCalls m else []) ↔
    ResolverAgrees generate m := by
  have hsize : messageSize m = m.length := hm.2
  rw [sessionMessageCalls_network hm htype]
  unfold ResolverAgrees
  by_cases hshort : m.length ≤ 20
  · rw [networkCalls_eq_nil (.inl (hsize ▸ hshort)), if_neg (by omega)]
    exact iff_of_true (sameEffect_refl []) (.inl hshort)
  · by_cases hwrites : m.length ≤ controlBufSize ∧ leAt 16 4 m < m.length - 20
    · rw [if_pos hwrites]
      cases generate with
      | false =>
        rw [networkCalls_eq_nil (.inr rfl)]
        refine iff_of_false (not_sameEffect_resolvConf _) ?_
        simp only [Bool.false_eq_true, false_and, or_false, true_and]
        omega
      | true =>
        have htext : resolvConfText m = withNewline (cString m (20 + leAt 16 4 m)) := by
          rw [resolvConfText, fileContents, hsize, if_pos hwrites.2]
          rfl
        rw [networkCalls_of_generate (by omega), sameEffect_replace (by decide), htext,
          withNewline_eq_self_iff]
        simp only [hshort, false_or, Bool.true_eq_false, false_and, true_and, hwrites.1, hwrites.2]
    · rw [if_neg hwrites]
      cases generate with
      | false =>
        rw [networkCalls_eq_nil (.inr rfl)]
        exact iff_of_true (sameEffect_refl []) (.inr (.inl ⟨rfl, by omega⟩))
      | true =>
        rw [networkCalls_of_generate (by omega)]
        refine iff_of_false not_sameEffect_network ?_
        rintro (h | ⟨h, -⟩ | ⟨-, hidx, hfit, -⟩)
        · exact hshort h
        · cases h
        · exact hwrites ⟨hfit, hidx⟩

/-! The session never writes `/etc/timezone`. -/

theorem not_sameEffect_zone {zone : Bytes} {target : Bytes} :
    ¬ SameEffect (zoneCalls zone) [.unlink TZ_LOCALTIME_FILE, .symlink target TZ_LOCALTIME_FILE] := by
  intro h
  have hsetting := h (fun _ => none) TZ_SETTING_FILE (by simp)
  have hne : TZ_SETTING_FILE ≠ TZ_LOCALTIME_FILE := by decide
  simp [zoneCalls, FileCall.apply, Function.update_of_ne hne] at hsetting

theorem not_sameEffect_zone_nil {zone : Bytes} : ¬ SameEffect (zoneCalls zone) [] :=
  not_sameEffect_nil TZ_SETTING_FILE (by simp) (by simp [zoneCalls, FileCall.apply])

theorem not_sameEffect_localtime {target : Bytes} :
    ¬ SameEffect [] [.unlink TZ_LOCALTIME_FILE, .symlink target TZ_LOCALTIME_FILE] := fun h =>
  not_sameEffect_nil TZ_LOCALTIME_FILE (by simp) (by simp [FileCall.apply]) h.symm

theorem sameEffect_timezone_iff {m : Bytes} (hm : messageFormat.WellFormed m)
    (htype : messageType m = LxInitMessageTimezoneInformation) (zones : Bytes → Bool)
    (autoUpdate : Bool) : SameEffect (timezoneCalls zones autoUpdate m)
      (if m.length ≤ controlBufSize then sessionMessageCalls m else []) ↔
    ZoneAgrees zones autoUpdate m := by
  have hsize : messageSize m = m.length := hm.2
  rw [sessionMessageCalls_timezone hm htype]
  unfold ZoneAgrees
  by_cases hzone : 16 < m.length ∧ leAt 12 4 m < m.length - 16
  · have hcalls : timezoneCalls zones autoUpdate m =
        if Applied zones autoUpdate (cString m (16 + leAt 12 4 m)) then
          zoneCalls (cString m (16 + leAt 12 4 m)) else [] := by
      rw [timezoneCalls, messageTimezone, hsize, if_pos hzone]
    by_cases happlied : Applied zones autoUpdate (cString m (16 + leAt 12 4 m))
    · rw [hcalls, if_pos happlied]
      refine iff_of_false ?_ ?_
      · split
        · exact not_sameEffect_zone
        · exact not_sameEffect_zone_nil
      · rintro (h | h | ⟨-, h⟩)
        · omega
        · omega
        · exact h happlied
    · rw [hcalls, if_neg happlied]
      by_cases hfit : m.length ≤ controlBufSize
      · rw [if_pos ⟨hfit, hzone.2⟩]
        exact iff_of_false not_sameEffect_localtime (by omega)
      · rw [if_neg fun h => hfit h.1]
        exact iff_of_true (sameEffect_refl []) (.inr (.inr ⟨Nat.lt_of_not_le hfit, happlied⟩))
  · rw [timezoneCalls, messageTimezone, hsize, if_neg hzone, if_neg (by omega)]
    exact iff_of_true (sameEffect_refl []) (by omega)

/-- For every message of the two types, every configuration and all time zones: the message has the
same effect on both channels if and only if it says nothing, or nothing is done for it, or it
replaces the resolver configuration by a text that fits and needs no newline. -/
theorem session_files_iff {env : InitEnvironment} {zones : Bytes → Bool} (henv : FilesWork env zones)
    {m : Bytes} (hm : HostMessage m) (htype : IsShared m) {s : Init} (hs : Configured s.globals)
    (hin : s.incoming = m) {x : Bytes} {b : Session} (hb : Arrived x [] b) (cfg : Bridge.Setup) :
    ∃ cs cs' b', initCalls (Init.stateOf (s.receive env true)).trace = initCalls s.trace ++ cs ∧
      Session.iterate cfg b (messagePass m) = .inl b' ∧
      sessionCalls b'.trace = sessionCalls b.trace ++ cs' ∧
      (SameEffect cs cs' ↔ MessageAgrees zones s.globals m) := by
  obtain ⟨b', hb', hcalls⟩ := sessionCalls_iterate hb hm htype cfg
  refine ⟨_, _, b', initCalls_receive henv hs hm.wellFormed htype hin, hb', hcalls, ?_⟩
  unfold initMessageCalls MessageAgrees
  rcases htype with htype | htype
  · rw [if_pos htype, if_pos htype]
    exact sameEffect_network_iff hm.wellFormed htype _
  · have hne : ¬ messageType m = LxInitMessageNetworkInformation := by
      rw [htype]
      decide
    rw [if_neg hne, if_neg hne]
    exact sameEffect_timezone_iff hm.wellFormed htype zones _

theorem filesWork_plainEnvironment : FilesWork plainEnvironment fun _ => true where
  write _ _ _ := rfl
  rename _ _ _ := rfl
  symlink _ _ _ := rfl
  access _ _ := rfl

/-- `NetworkInformation` with an empty header and one name server. -/
def nameserverMessage : Bytes :=
  header LxInitMessageNetworkInformation 42 1 ++ (leBytes 4 0 ++ leBytes 4 1 ++
    ([0] ++ ascii "nameserver 10.0.0.1\n" ++ [0]))

/-- With the default settings the name server is the same on both channels. -/
theorem session_files_iff_nameserver : ∃ cs cs' b',
    initCalls (Init.stateOf (Init.receive plainEnvironment true { incoming := nameserverMessage })).trace
      = cs ∧
    Session.iterate {} (Session.init {}) (messagePass nameserverMessage) = .inl b' ∧
    sessionCalls b'.trace = sessionCalls (Session.init {}).trace ++ cs' ∧ SameEffect cs cs' := by
  obtain ⟨cs, cs', b', hcs, hb', hcs', hiff⟩ := session_files_iff filesWork_plainEnvironment
    (m := nameserverMessage) ⟨by decide, by decide⟩ (.inl (by decide))
    (s := { incoming := nameserverMessage }) ⟨rfl, rfl⟩ rfl (Bridge.arrived_init {}) {}
  refine ⟨cs, cs', b', hcs, hb', hcs', hiff.mpr ?_⟩
  rw [MessageAgrees, if_pos (by decide)]
  exact .inr (.inr ⟨rfl, by decide, by decide, .inr (by decide)⟩)

/-- The globals with `generateResolvConf` turned off in `/etc/wsl.conf`. -/
def userManagedResolver : Globals :=
  { wslConf := wslConfOf (.contents (ascii "[network]\ngenerateResolvConf = false\n"))
    generateResolvconf := false }

/-- With `generateResolvConf = false` the init channel leaves the resolver alone, and the session
overwrites it. -/
theorem resolver_overwritten : ∃ b', Configured userManagedResolver ∧
    initCalls (Init.stateOf (Init.receive plainEnvironment true
      { globals := userManagedResolver, incoming := nameserverMessage })).trace = [] ∧
    Session.iterate {} (Session.init {}) (messagePass nameserverMessage) = .inl b' ∧
    sessionCalls b'.trace = sessionCalls (Session.init {}).trace ++
      [.write RESOLV_CONF_FILE (ascii "nameserver 10.0.0.1\n")] ∧
    ¬ SameEffect [] [.write RESOLV_CONF_FILE (ascii "nameserver 10.0.0.1\n")] := by
  have hm : HostMessage nameserverMessage := ⟨by decide, by decide⟩
  have htype : IsShared nameserverMessage := .inl (by decide)
  have hconf : Configured userManagedResolver := ⟨by decide, rfl⟩
  obtain ⟨b', hb', hcalls⟩ := sessionCalls_iterate (Bridge.arrived_init {}) hm htype {}
  refine ⟨b', hconf, ?_, hb', ?_, not_sameEffect_resolvConf _⟩
  · rw [initCalls_receive filesWork_plainEnvironment hconf hm.wellFormed htype rfl]
    decide
  · rw [hcalls]
    exact congrArg (_ ++ ·) (by decide)

end WslFreeBSD.Hvinit
