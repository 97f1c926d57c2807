import WslFreeBSD.Lib.Reconcile
import WslFreeBSD.Lib.Runs
import WslFreeBSD.Reference.Localhost

/-!
# The scans for listening sockets

`ScanProcNetTCP` reads the listening sockets once a second and keeps a vector of the ones that the host relays.
A scan stops the relays of sockets that are gone and starts those of new ones; a message that cannot be sent is
noted in `result`, which is looked at when the scan is over.

`IsSameSockAddr` compares keys (`isSameSockAddr_iff`), so that a scan without a failure is `reconcile` at the
key (`scanned_of_sent`).
-/

namespace WslFreeBSD.Reference

open Lib Protocol

/-! ## `IsSameSockAddr` -/

/-- `IsSameSockAddr`. `ParseTcpFile` returns addresses of the two families only. -/
def isSameSockAddr (left right : SockAddr) : Bool :=
  if left.family ≠ right.family then false
  else
    match left.family with
    | .inet => left.addr.w0 = right.addr.w0 ∧ left.port = right.port
    | .inet6 =>
      if left.port ≠ right.port then false
      else left.addr.w0 = right.addr.w0 ∧ left.addr.w1 = right.addr.w1 ∧ left.addr.w2 = right.addr.w2 ∧
        left.addr.w3 = right.addr.w3

def SockAddr.key (sock : SockAddr) : SockAddr :=
  match sock.family with
  | .inet => { sock with addr := { w0 := sock.addr.w0 } }
  | .inet6 => sock

theorem isSameSockAddr_iff (left right : SockAddr) :
    isSameSockAddr left right = true ↔ left.key = right.key := by
  obtain ⟨family, port, w0, w1, w2, w3⟩ := left
  obtain ⟨family', port', w0', w1', w2', w3'⟩ := right
  unfold isSameSockAddr SockAddr.key
  cases family with
  | inet =>
    cases family' with
    | inet =>
      simp only [ne_eq, not_true_eq_false, if_false, decide_eq_true_eq, SockAddr.mk.injEq, Addr.mk.injEq,
        true_and, and_true]
      exact And.comm
    | inet6 => simp
  | inet6 =>
    cases family' with
    | inet => simp
    | inet6 =>
      by_cases hport : port = port'
      · simp [hport]
      · simp [hport]

/-! ## IPv6 sockets -/

/-- A listening IPv6 socket, and its row in `/proc/net/tcp6`. -/
structure Listening6 where
  row : RowLayout := {}
  addr : Addr
  port : UInt16
  port_ne : port ≠ 0

def Listening6.socket (listening : Listening6) : ListenSocket where
  family := .inet6
  addr := listening.addr
  port := listening.port
  port_ne := listening.port_ne

def Listening6.text (listening : Listening6) : Bytes := tcpRow listening.row listening.socket

def Listening6.exact (listening : Listening6) : SockAddr where
  family := .inet6
  addr := listening.addr
  port := listening.port

theorem parseLine_text (listening : Listening6) :
    parseLine .inet6 listening.text = some listening.socket.parsed :=
  parseLine_tcpRow listening.row listening.socket

theorem parseTcpFile_inet6 (heading : Bytes) (sockets : List Listening6) :
    parseTcpFile .inet6 (heading :: sockets.map Listening6.text) =
      some (sockets.map fun listening => listening.socket.parsed) := by
  rw [parseTcpFile, List.filterMap_map]
  refine congrArg some ?_
  have hline : parseLine .inet6 ∘ Listening6.text = some ∘ fun listening => listening.socket.parsed :=
    funext parseLine_text
  rw [hline, List.filterMap_eq_map]

theorem parsed_eq_exact_iff (listening : Listening6) :
    listening.socket.parsed = listening.exact ↔ listening.addr = {} := by
  obtain ⟨row, ⟨w0, w1, w2, w3⟩, port, port_ne⟩ := listening
  have hdiv (w : UInt32) : w / 65536 = w ↔ w = 0 := by
    rw [← UInt32.toNat_inj, ← UInt32.toNat_inj, UInt32.toNat_div]
    change w.toNat / 65536 = w.toNat ↔ w.toNat = 0
    omega
  have hzero : (0 : UInt32) % 65536 = 0 ∧ (0 : UInt32) / 65536 = 0 := by decide
  simp only [Listening6.socket, Listening6.exact, ListenSocket.parsed, SockAddr.mk.injEq, Addr.mk.injEq,
    true_and, hdiv]
  constructor
  · rintro ⟨rfl, h1, h2, h3⟩
    rw [hzero.1] at h1
    subst h1
    rw [hzero.2] at h2
    rw [hzero.1] at h3
    exact ⟨rfl, rfl, h2.symm, h3.symm⟩
  · rintro ⟨rfl, rfl, rfl, rfl⟩
    exact ⟨rfl, hzero.1, hzero.2, hzero.1⟩

theorem isSameSockAddr_parsed_iff (left right : Listening6) :
    isSameSockAddr left.socket.parsed right.socket.parsed = true ↔
      left.port = right.port ∧ left.addr.w0 = right.addr.w0 ∧ left.addr.w1 = right.addr.w1 := by
  have hhalves (v w : UInt32) : v / 65536 = w / 65536 ∧ v % 65536 = w % 65536 ↔ v = w := by
    simp only [← UInt32.toNat_inj, UInt32.toNat_div, UInt32.toNat_mod]
    change v.toNat / 65536 = w.toNat / 65536 ∧ v.toNat % 65536 = w.toNat % 65536 ↔ _
    omega
  rw [isSameSockAddr_iff, ← hhalves left.addr.w0, ← hhalves left.addr.w1]
  simp only [SockAddr.key, Listening6.socket, ListenSocket.parsed, SockAddr.mk.injEq, Addr.mk.injEq, true_and,
    and_assoc]

/-- `ParseTcpFile` returns each IPv6 socket with its address, and no two with different addresses are merged,
exactly if all of them have the address `::`. -/
theorem parseTcpFile_exact_iff (heading : Bytes) (sockets : List Listening6) :
    (parseTcpFile .inet6 (heading :: sockets.map Listening6.text) = some (sockets.map Listening6.exact) ∧
        ∀ left ∈ sockets, ∀ right ∈ sockets, left.addr ≠ right.addr →
          ∀ l ∈ parseLine .inet6 left.text, ∀ r ∈ parseLine .inet6 right.text, isSameSockAddr l r = false) ↔
      ∀ listening ∈ sockets, listening.addr = {} := by
  rw [parseTcpFile_inet6, Option.some_inj, List.map_inj_left]
  simp only [parsed_eq_exact_iff]
  constructor
  · exact fun h => h.1
  · intro hall
    refine ⟨hall, fun left hleft right hright hne => ?_⟩
    exact absurd ((hall left hleft).trans (hall right hright).symm) hne

/-- `::1` and `::2`, with port 80. -/
theorem loopback_not_exact :
    ¬ ∀ (heading : Bytes) (sockets : List Listening6),
      parseTcpFile .inet6 (heading :: sockets.map Listening6.text) = some (sockets.map Listening6.exact) ∧
        ∀ left ∈ sockets, ∀ right ∈ sockets, left.addr ≠ right.addr →
          ∀ l ∈ parseLine .inet6 left.text, ∀ r ∈ parseLine .inet6 right.text,
            isSameSockAddr l r = false := by
  intro h
  have hmerged := (h [] [{ addr := { w3 := 0x01000000 }, port := 80, port_ne := by decide },
    { addr := { w3 := 0x02000000 }, port := 80, port_ne := by decide }]).2 _ List.mem_cons_self _
      (List.mem_cons_of_mem _ List.mem_cons_self) (by decide) _ (parseLine_text _) _ (parseLine_text _)
  revert hmerged
  decide

/-! ## The scan -/

inductive MessageType where
  | start
  | stop
  deriving DecidableEq, Repr

/-- A message to the host, and whether it could be sent. -/
structure Sent where
  type : MessageType
  sock : SockAddr
  success : Bool
  deriving DecidableEq, Repr

structure Scanner where
  relays : List SockAddr := []
  result : Int := 0
  /-- All messages so far. -/
  sent : List Sent := []
  deriving DecidableEq, Repr

variable (results : Nat → Bool)

/-- `StartHostListener` and `StopHostListener`; the results of sending come in the order of the messages. -/
def Scanner.send (s : Scanner) (type : MessageType) (sock : SockAddr) : Scanner :=
  { s with sent := s.sent ++ [⟨type, sock, results s.sent.length⟩] }

/-- The predicate of `erase_if`, for an entry behind those that stay. -/
def stopRelay (sockets : List SockAddr) (s : Scanner) (entry : SockAddr) : Scanner :=
  if sockets.any (isSameSockAddr entry) then { s with relays := s.relays ++ [entry] }
  else if results s.sent.length then s.send results .stop entry
  else { s.send results .stop entry with result := -1 }

def startRelay (s : Scanner) (socket : SockAddr) : Scanner :=
  if s.relays.any (isSameSockAddr · socket) then s
  else if results s.sent.length then
    { s.send results .start socket with relays := s.relays ++ [socket] }
  else { s.send results .start socket with result := -1 }

/-- The state when the relays that no longer match are stopped. -/
def stopped (s : Scanner) (sockets : List SockAddr) : Scanner :=
  s.relays.foldl (stopRelay results sockets) { s with relays := [] }

def scanned (s : Scanner) (sockets : List SockAddr) : Scanner :=
  sockets.foldl (startRelay results) (stopped results s sockets)

/-- A pass of the loop of `ScanProcNetTCP`, with the sockets of both files. -/
def scan (s : Scanner) (sockets : List SockAddr) : Scanner ⊕ Scanner :=
  if (scanned results s sockets).result < 0 then .inr (scanned results s sockets)
  else .inl (scanned results s sockets)

def scanProcNetTCP (scans : List (List SockAddr)) : Scanner ⊕ Scanner := runLoop (scan results) {} scans

/-! ## What is promised -/

/-- A socket is among others, up to `IsSameSockAddr`. -/
def listed (sockets : List SockAddr) (sock : SockAddr) : Bool := sockets.any (isSameSockAddr · sock)

def DuplicateFree (sockets : List SockAddr) : Prop :=
  sockets.Pairwise fun left right => isSameSockAddr left right = false

/-- How many messages of a type were sent for a socket. -/
def countOf (type : MessageType) (sock : SockAddr) (messages : List Sent) : Nat :=
  messages.countP fun message => message.type = type ∧ isSameSockAddr message.sock sock = true

theorem listed_iff (sockets : List SockAddr) (sock : SockAddr) :
    listed sockets sock = true ↔ sock.key ∈ sockets.map SockAddr.key := by
  simp only [listed, List.any_eq_true, isSameSockAddr_iff, List.mem_map]

theorem any_same_iff (sockets : List SockAddr) (entry : SockAddr) :
    sockets.any (isSameSockAddr entry) = true ↔ entry.key ∈ sockets.map SockAddr.key := by
  rw [List.any_eq_true, List.mem_map]
  refine exists_congr fun socket => and_congr_right' ?_
  rw [isSameSockAddr_iff, eq_comm]

theorem duplicateFree_iff (sockets : List SockAddr) :
    DuplicateFree sockets ↔ (sockets.map SockAddr.key).Nodup := by
  rw [DuplicateFree, List.Nodup, List.pairwise_map]
  refine List.Pairwise.iff fun left right => ?_
  rw [Ne, ← isSameSockAddr_iff, Bool.not_eq_true]

/-! ## One scan -/

/-- The result says whether a message could not be sent. -/
def Noted (s : Scanner) : Prop := s.result = if s.sent.all Sent.success then 0 else -1

/-- A message of the type for each of the sockets, whatever the results. -/
def Announces (type : MessageType) (socks : List SockAddr) (messages : List Sent) : Prop :=
  messages.map (fun message => (message.type, message.sock)) = socks.map (type, ·)

section Scan

variable {results} {s : Scanner} {sockets : List SockAddr}

theorem Noted.send (h : Noted s) (type : MessageType) (sock : SockAddr) (relays : List SockAddr) :
    Noted { relays, sent := (s.send results type sock).sent,
            result := if results s.sent.length then s.result else -1 } := by
  unfold Noted at h ⊢
  rw [Scanner.send, List.all_append, h]
  cases hsuccess : results s.sent.length with
  | false => simp
  | true => simp

theorem stopRelay_listed {entry : SockAddr} (h : entry.key ∈ sockets.map SockAddr.key) :
    stopRelay results sockets s entry = { s with relays := s.relays ++ [entry] } :=
  if_pos ((any_same_iff sockets entry).mpr h)

theorem stopRelay_gone {entry : SockAddr} (h : entry.key ∉ sockets.map SockAddr.key) :
    stopRelay results sockets s entry =
      { s.send results .stop entry with result := if results s.sent.length then s.result else -1 } := by
  rw [stopRelay, if_neg fun hany => h ((any_same_iff sockets entry).mp hany)]
  split
  · rfl
  · rfl

theorem startRelay_listed {socket : SockAddr} (h : socket.key ∈ s.relays.map SockAddr.key) :
    startRelay results s socket = s :=
  if_pos ((listed_iff s.relays socket).mpr h)

theorem startRelay_new {socket : SockAddr} (h : socket.key ∉ s.relays.map SockAddr.key) :
    startRelay results s socket =
      { s.send results .start socket with
        relays := if results s.sent.length then s.relays ++ [socket] else s.relays,
        result := if results s.sent.length then s.result else -1 } := by
  have hnew : ¬ s.relays.any (isSameSockAddr · socket) = true := fun hany =>
    h ((listed_iff s.relays socket).mp hany)
  rw [startRelay, if_neg hnew]
  split
  · rfl
  · rfl

theorem foldl_stopRelay (entries : List SockAddr) : ∃ messages,
    (entries.foldl (stopRelay results sockets) s).relays =
        s.relays ++ retained SockAddr.key (sockets.map SockAddr.key) entries ∧
      (entries.foldl (stopRelay results sockets) s).sent = s.sent ++ messages ∧
      Announces .stop (dropped SockAddr.key (sockets.map SockAddr.key) entries) messages ∧
      (Noted s → Noted (entries.foldl (stopRelay results sockets) s)) := by
  induction entries generalizing s with
  | nil => exact ⟨[], (List.append_nil _).symm, (List.append_nil _).symm, rfl, id⟩
  | cons entry entries ih =>
    rw [List.foldl_cons]
    by_cases hlisted : entry.key ∈ sockets.map SockAddr.key
    · rw [stopRelay_listed hlisted, dropped_cons_of_mem _ _ hlisted]
      obtain ⟨messages, hrelays, hrest⟩ := @ih { s with relays := s.relays ++ [entry] }
      refine ⟨messages, ?_, hrest⟩
      rw [hrelays, retained_cons_of_mem _ _ hlisted, List.append_assoc]
      rfl
    · rw [stopRelay_gone hlisted, retained_cons_of_not_mem _ _ hlisted, dropped_cons_of_not_mem _ _ hlisted]
      obtain ⟨messages, hrelays, hsent, hannounces, hnoted⟩ := @ih { s.send results .stop entry with
        result := if results s.sent.length then s.result else -1 }
      refine ⟨⟨.stop, entry, results s.sent.length⟩ :: messages, hrelays, ?_, ?_, fun h => hnoted ?_⟩
      · exact hsent.trans (List.append_assoc _ _ _)
      · rw [Announces, List.map_cons, List.map_cons]
        exact congrArg _ hannounces
      · exact h.send .stop entry s.relays

/-- The sockets that are new are put behind the relays and a message is sent for each, if all can be sent. -/
theorem foldl_startRelay (sockets : List SockAddr) : ∃ messages,
    (sockets.foldl (startRelay results) s).sent = s.sent ++ messages ∧
      (Noted s → Noted (sockets.foldl (startRelay results) s)) ∧
      ((s.relays.map SockAddr.key).Nodup →
        ((sockets.foldl (startRelay results) s).relays.map SockAddr.key).Nodup) ∧
      (messages.all Sent.success = true →
        (sockets.foldl (startRelay results) s).relays =
            s.relays ++ fresh SockAddr.key (s.relays.map SockAddr.key) sockets ∧
          Announces .start (fresh SockAddr.key (s.relays.map SockAddr.key) sockets) messages) := by
  induction sockets generalizing s with
  | nil => exact ⟨[], (List.append_nil _).symm, id, id, fun _ => ⟨(List.append_nil _).symm, rfl⟩⟩
  | cons socket sockets ih =>
    rw [List.foldl_cons, fresh]
    by_cases hlisted : socket.key ∈ s.relays.map SockAddr.key
    · rw [startRelay_listed hlisted, if_pos hlisted]
      exact ih
    · rw [startRelay_new hlisted, if_neg hlisted]
      obtain ⟨messages, hsent, hnoted, hnodup, hall⟩ := @ih { s.send results .start socket with
        relays := if results s.sent.length then s.relays ++ [socket] else s.relays,
        result := if results s.sent.length then s.result else -1 }
      refine ⟨⟨.start, socket, results s.sent.length⟩ :: messages, hsent.trans (List.append_assoc _ _ _),
        fun h => hnoted (h.send .start socket _), fun h => hnodup ?_, fun hsuccess => ?_⟩
      · dsimp only
        split
        · rw [List.map_append]
          exact List.nodup_append.mpr ⟨h, List.nodup_singleton _, fun k hk k' hk' heq =>
            hlisted (List.mem_singleton.mp hk' ▸ heq ▸ hk)⟩
        · exact h
      · rw [List.all_cons, Bool.and_eq_true] at hsuccess
        obtain ⟨hfirst, hrest⟩ := hsuccess
        dsimp only at hfirst
        obtain ⟨hrelays, hannounces⟩ := hall hrest
        simp only [hfirst, if_true, List.map_append, List.map_cons, List.map_nil] at hrelays hannounces ⊢
        refine ⟨hrelays.trans (List.append_assoc _ _ _), ?_⟩
        rw [Announces, List.map_cons, List.map_cons, hannounces]

theorem nodup_foldl_startRelay (h : (s.relays.map SockAddr.key).Nodup) (first : List SockAddr) :
    ((first.foldl (startRelay results) (stopped results s sockets)).relays.map SockAddr.key).Nodup := by
  obtain ⟨-, hrelays, -⟩ := @foldl_stopRelay results { s with relays := [] } sockets s.relays
  obtain ⟨-, -, -, hnodup, -⟩ := @foldl_startRelay results (stopped results s sockets) first
  refine hnodup ?_
  rw [stopped, hrelays]
  exact nodup_retained SockAddr.key h _

theorem scanned_spec (sockets : List SockAddr) (hnoted : Noted s) : ∃ messages,
    (scanned results s sockets).sent = s.sent ++ messages ∧ Noted (scanned results s sockets) ∧
      (messages.all Sent.success = true →
        (scanned results s sockets).relays = reconcile SockAddr.key s.relays sockets ∧
          ∃ stops starts, messages = stops ++ starts ∧
            Announces .stop (dropped SockAddr.key (sockets.map SockAddr.key) s.relays) stops ∧
            Announces .start (fresh SockAddr.key ((retained SockAddr.key (sockets.map SockAddr.key)
              s.relays).map SockAddr.key) sockets) starts) := by
  obtain ⟨stops, hrelays, hsent, hstops, hstopped⟩ :=
    @foldl_stopRelay results { s with relays := [] } sockets s.relays
  obtain ⟨starts, hsent', hstarted, -, hall⟩ := @foldl_startRelay results (stopped results s sockets) sockets
  rw [List.nil_append] at hrelays
  refine ⟨stops ++ starts, ?_, hstarted (hstopped hnoted), fun hsuccess => ?_⟩
  · rw [scanned, hsent', stopped, hsent, List.append_assoc]
  · rw [List.all_append, Bool.and_eq_true] at hsuccess
    obtain ⟨hrelays', hstarts⟩ := hall hsuccess.2
    rw [stopped, hrelays] at hrelays' hstarts
    exact ⟨hrelays', stops, starts, rfl, hstops, hstarts⟩

theorem countOf_announces {type type' : MessageType} {socks : List SockAddr} {messages : List Sent}
    (h : Announces type socks messages) (sock : SockAddr) :
    countOf type' sock messages =
      if type = type' then socks.countP (fun other => other.key = sock.key) else 0 := by
  have hcount : countOf type' sock messages =
      (messages.map fun message => (message.type, message.sock)).countP
        (fun pair => pair.1 = type' ∧ isSameSockAddr pair.2 sock = true) := by
    rw [List.countP_map]
    rfl
  rw [hcount, h, List.countP_map]
  split
  · next heq =>
    refine List.countP_congr fun other _ => ?_
    simp [heq, isSameSockAddr_iff]
  · next hne =>
    rw [List.countP_eq_zero]
    intro other _
    simp [hne]

end Scan

/-! ## All scans -/

/-- The relays are the sockets of the previous scan, and nothing has failed. -/
structure Tracks (previous : List SockAddr) (s : Scanner) : Prop where
  success : s.sent.all Sent.success = true
  noted : Noted s
  nodup : (s.relays.map SockAddr.key).Nodup
  same : ∀ k, k ∈ s.relays.map SockAddr.key ↔ k ∈ previous.map SockAddr.key

theorem tracks_start : Tracks [] {} := ⟨rfl, rfl, List.nodup_nil, fun _ => Iff.rfl⟩

section Runs

variable {results} {s s' : Scanner} {previous sockets : List SockAddr}

theorem scan_eq_of_noted (h : Noted (scanned results s sockets)) :
    scan results s sockets =
      if (scanned results s sockets).sent.all Sent.success then .inl (scanned results s sockets)
      else .inr (scanned results s sockets) := by
  unfold Noted at h
  rw [scan, h]
  split
  · rfl
  · rfl

theorem Tracks.scan (h : Tracks previous s) (hscan : scan results s sockets = .inl s') : Tracks sockets s' := by
  obtain ⟨messages, hsent, hnoted, hall⟩ := @scanned_spec results s sockets h.noted
  rw [scan_eq_of_noted hnoted] at hscan
  split at hscan
  · next hsuccess =>
    obtain rfl := Sum.inl.inj hscan
    have hmessages := hsuccess
    rw [hsent, List.all_append, Bool.and_eq_true] at hmessages
    obtain ⟨hrelays, -⟩ := hall hmessages.2
    refine ⟨hsuccess, hnoted, ?_, fun k => ?_⟩
    · rw [hrelays]
      exact nodup_reconcile SockAddr.key h.nodup sockets
    · rw [hrelays]
      exact mem_reconcile SockAddr.key s.relays sockets
  · cases hscan

theorem Tracks.run (h : Tracks previous s) {scans : List (List SockAddr)}
    (hrun : runLoop (Reference.scan results) s scans = .inl s') : Tracks (scans.getLastD previous) s' := by
  induction scans generalizing s previous with
  | nil =>
    obtain rfl := Sum.inl.inj hrun
    exact h
  | cons sockets scans ih =>
    rw [runLoop] at hrun
    rw [List.getLastD_cons]
    cases hscan : Reference.scan results s sockets with
    | inl next =>
      rw [hscan] at hrun
      exact ih (h.scan hscan) hrun
    | inr last =>
      rw [hscan] at hrun
      cases hrun

end Runs

/-- What a scan sends and leaves behind, after any scans that were not the last one. -/
theorem scanProcNetTCP_spec {scans : List (List SockAddr)} {s : Scanner}
    (hrun : scanProcNetTCP results scans = .inl s) (sockets : List SockAddr) :
    s.sent.all Sent.success = true ∧
      (∀ first, first <+: sockets →
        DuplicateFree (first.foldl (startRelay results) (stopped results s sockets)).relays) ∧
      ∃ messages, (scanned results s sockets).sent = s.sent ++ messages ∧
        (messages.all Sent.success = true →
          scanProcNetTCP results (scans ++ [sockets]) = .inl (scanned results s sockets) ∧
            DuplicateFree (scanned results s sockets).relays ∧
            (∀ sock, listed (scanned results s sockets).relays sock = listed sockets sock) ∧
            ∀ sock,
              (countOf .start sock messages =
                if listed sockets sock ∧ ¬ listed (scans.getLastD []) sock then 1 else 0) ∧
              countOf .stop sock messages =
                if listed (scans.getLastD []) sock ∧ ¬ listed sockets sock then 1 else 0) ∧
        (messages.all Sent.success = false →
          (scanned results s sockets).result = -1 ∧
            ∀ more, scanProcNetTCP results (scans ++ sockets :: more) = .inr (scanned results s sockets)) := by
  have htracks : Tracks (scans.getLastD []) s := tracks_start.run hrun
  obtain ⟨messages, hsent, hnoted, hall⟩ := @scanned_spec results s sockets htracks.noted
  have hscan := scan_eq_of_noted hnoted
  rw [hsent, List.all_append, htracks.success, Bool.true_and] at hscan
  refine ⟨htracks.success, fun first _ => ?_, messages, hsent, fun hsuccess => ?_, fun hfailure => ⟨?_, ?_⟩⟩
  · rw [duplicateFree_iff]
    exact nodup_foldl_startRelay htracks.nodup first
  · rw [hsuccess, if_pos rfl] at hscan
    obtain ⟨hrelays, stops, starts, rfl, hstops, hstarts⟩ := hall hsuccess
    refine ⟨?_, ?_, fun sock => ?_, fun sock => ⟨?_, ?_⟩⟩
    · rw [scanProcNetTCP, runLoop_append _ hrun, runLoop, hscan]
      rfl
    · rw [hrelays, duplicateFree_iff]
      exact nodup_reconcile SockAddr.key htracks.nodup sockets
    · rw [hrelays, Bool.eq_iff_iff, listed_iff, listed_iff, mem_reconcile]
    · rw [countOf, List.countP_append]
      change countOf .start sock stops + countOf .start sock starts = _
      rw [countOf_announces hstops, countOf_announces hstarts, if_neg (by decide), if_pos rfl, Nat.zero_add,
        countP_fresh SockAddr.key htracks.nodup]
      simp only [listed_iff, htracks.same]
    · rw [countOf, List.countP_append]
      change countOf .stop sock stops + countOf .stop sock starts = _
      rw [countOf_announces hstops, countOf_announces hstarts, if_pos rfl, if_neg (by decide), Nat.add_zero,
        countP_dropped SockAddr.key htracks.nodup]
      simp only [listed_iff, htracks.same]
  · unfold Noted at hnoted
    rw [hnoted, hsent, List.all_append, hfailure, Bool.and_false]
    rfl
  · intro more
    rw [hfailure] at hscan
    rw [scanProcNetTCP, runLoop_append _ hrun, runLoop, hscan]
    rfl

/-- Port 80 is listened on, and in the next scan port 81 instead, which is listed twice. -/
theorem scanProcNetTCP_spec_two : ∃ messages,
    (scanned (fun _ => true) (scanned (fun _ => true) {} [⟨.inet, 80, {}⟩])
        [⟨.inet, 81, {}⟩, ⟨.inet, 81, {}⟩]).sent = [⟨.start, ⟨.inet, 80, {}⟩, true⟩] ++ messages ∧
      countOf .start ⟨.inet, 81, {}⟩ messages = 1 ∧ countOf .stop ⟨.inet, 80, {}⟩ messages = 1 := by
  obtain ⟨-, -, messages, hsent, hall, -⟩ := @scanProcNetTCP_spec (fun _ => true) [[⟨.inet, 80, {}⟩]]
    (scanned (fun _ => true) {} [⟨.inet, 80, {}⟩]) (by decide) [⟨.inet, 81, {}⟩, ⟨.inet, 81, {}⟩]
  have hsuccess : (([⟨.start, ⟨.inet, 80, {}⟩, true⟩] : List Sent) ++ messages).all Sent.success = true := by
    change ((scanned (fun _ => true) {} [⟨.inet, 80, {}⟩]).sent ++ messages).all Sent.success = true
    rw [← hsent]
    decide
  obtain ⟨-, -, -, hcount⟩ := hall hsuccess
  exact ⟨messages, hsent, (hcount ⟨.inet, 81, {}⟩).1, (hcount ⟨.inet, 80, {}⟩).2⟩

end WslFreeBSD.Reference
