import WslFreeBSD.Reference.GnsPortTracker
import WslFreeBSD.Reference.WaitableValue

/-!
# From a `bind()` to its answer

The kernel tells `SecCompDispatcher::Run` of the system calls that it holds up. The handler for `bind()` gives
the notification to the thread of `GnsPortTracker::Run` through one `WaitableValue` and takes the result from
another one, and the dispatcher answers the kernel: a call with the result 0 goes on, any other one fails. The
tracker looks up what is to be bound in the memory of the process that calls (`GetCallInfo`); a call that it
cannot make out goes on.

A call of `post`, `get` or `try_get` is one step (`Monitor.Sound.atomic`), and the two threads take theirs in
any order. In every run the kernel is told of each call once and in order, with the result of the tracker for
this very call (`responses_answered`), no `post` has to wait, and none is lost (`post_never_waits`).
-/

namespace WslFreeBSD.Reference.BindNotifications

open Lib Protocol Ports GnsPortTracker

/-! ## What is bound -/

def IPPROTO_TCP : Int := 6

def IPPROTO_UDP : Int := 17

def SYS_BIND : Nat := 2

/-- `__AUDIT_ARCH_64BIT`. -/
def AUDIT_ARCH_64BIT : Nat := 0x80000000

/-- What `seccomp_notif` says of a system call. -/
structure SeccompNotif where
  id : Nat
  nr : Int
  arch : Nat
  arg0 : Nat
  arg1 : Nat
  arg2 : Nat
  deriving DecidableEq

/-- What the tracker finds at the process that calls: whether it is in its own network namespace, if that can be
read; `ReadProcessMemory` for an address and a length; the attribute `system.sockprotoname` of a descriptor;
and whether the call is still held up in the end. -/
structure Caller where
  networkNamespace : Option Bool
  memory : Nat → Nat → Option Bytes
  sockprotoname : Nat → Option Bytes
  cookieValid : Bool

/-- `GetSocketProtocol`. The last byte of the attribute is a NUL. -/
def GetSocketProtocol (g : Caller) (fd : Nat) : Option Int :=
  let protocol := ((g.sockprotoname fd).getD []).dropLast
  if protocol = ascii "TCP" || protocol = ascii "TCPv6" then some IPPROTO_TCP
  else if protocol = ascii "UDP" || protocol = ascii "UDPv6" then some IPPROTO_UDP
  else none

/-- The address of a `sockaddr_in` or a `sockaddr_in6`. -/
def storedAddress (family : Nat) (mem : Bytes) : Addr :=
  if family = AF_INET.toNat then { w0 := UInt32.ofNat (leAt 4 4 mem) }
  else ⟨UInt32.ofNat (leAt 8 4 mem), UInt32.ofNat (leAt 12 4 mem), UInt32.ofNat (leAt 16 4 mem),
    UInt32.ofNat (leAt 20 4 mem)⟩

/-- `ParseSocket` in `GetCallInfo`; `none` is an exception. -/
def ParseSocket (g : Caller) (callId fd addressPtr addressLength : Nat) : Option BindCall :=
  if addressLength < 16 then some ⟨none, callId⟩
  else do
    if (← g.networkNamespace) = false then return ⟨none, callId⟩
    let mem ← g.memory addressPtr addressLength
    let family := leAt 0 2 mem
    if (family ≠ AF_INET.toNat ∧ family ≠ Platform.linux.AF_INET6.toNat) ∨
        (family = Platform.linux.AF_INET6.toNat ∧ addressLength < 28) then
      return ⟨none, callId⟩
    let port := be16Value (mem.drop 2)
    if port = 0 then return ⟨none, callId⟩
    let protocol ← GetSocketProtocol g fd
    if !g.cookieValid then none
    return ⟨some ⟨storedAddress family mem, UInt16.ofNat port, family, protocol⟩, callId⟩

/-- `GetCallInfo`. A 32-bit call on a 64-bit kernel is `socketcall`, with its arguments in memory. -/
def GetCallInfo (g : Caller) (n : SeccompNotif) : Option BindCall :=
  if n.arch &&& AUDIT_ARCH_64BIT ≠ 0 then ParseSocket g n.id (n.arg0 % 2 ^ 32) n.arg1 n.arg2
  else if n.arg0 ≠ SYS_BIND then some ⟨none, n.id⟩
  else do
    let mem ← g.memory n.arg1 12
    ParseSocket g n.id (leAt 0 4 mem) (leAt 4 4 mem) (leAt 8 4 mem)

/-- `ReadNextRequest` for a notification: a call that cannot be made out goes on. -/
def ReadNextRequest (g : Caller) (n : SeccompNotif) : BindCall := (GetCallInfo g n).getD ⟨none, n.id⟩

theorem callId_ParseSocket {g : Caller} {callId fd addressPtr addressLength : Nat} {c : BindCall}
    (h : ParseSocket g callId fd addressPtr addressLength = some c) : c.callId = callId := by
  unfold ParseSocket at h
  split at h
  · cases h
    rfl
  · simp only [Option.bind_eq_bind, Option.bind_eq_some_iff, Option.pure_def] at h
    obtain ⟨own, -, h⟩ := h
    split at h
    · cases h
      rfl
    · obtain ⟨mem, -, h⟩ := Option.bind_eq_some_iff.mp h
      split at h
      · cases h
        rfl
      · split at h
        · cases h
          rfl
        · obtain ⟨protocol, -, h⟩ := Option.bind_eq_some_iff.mp h
          split at h
          · cases h
          · cases h
            rfl

theorem callId_ReadNextRequest (g : Caller) (n : SeccompNotif) : (ReadNextRequest g n).callId = n.id := by
  unfold ReadNextRequest
  cases h : GetCallInfo g n with
  | none => rfl
  | some c =>
    unfold GetCallInfo at h
    split at h
    · exact callId_ParseSocket h
    · split at h
      · cases h
        rfl
      · obtain ⟨mem, -, h⟩ := Option.bind_eq_some_iff.mp h
        exact callId_ParseSocket h

/-! ## The two threads -/

/-- `seccomp_notif_resp`. -/
structure Response where
  id : Nat
  error : Int
  val : Int
  flags : Nat
  deriving DecidableEq

def SECCOMP_USER_NOTIF_FLAG_CONTINUE : Nat := 1

def respond (n : SeccompNotif) (result : Int) : Response where
  id := n.id
  error := -result
  val := 0
  flags := if result = 0 then SECCOMP_USER_NOTIF_FLAG_CONTINUE else 0

/-- The dispatcher polls, is in one of the two calls of `ProcessSecCompNotification`, or has the result. -/
inductive Dispatching where
  | polling
  | posting (n : SeccompNotif)
  | getting (n : SeccompNotif)
  | sending (n : SeccompNotif) (result : Int)

/-- The tracker is in `ReadNextRequest`, without and with a notification, or in `CompleteRequest`. -/
inductive Tracking where
  | waiting
  | reading (n : SeccompNotif)
  | replying (result : Int)

/-- `m_request` and `m_reply`, the two threads, and what has happened: the notifications for the handler, the
results that the tracker came to with the notifications they are for, the results that the kernel was told of,
and the passes of the loop of the tracker, each oldest first. -/
structure World where
  request : Option SeccompNotif := none
  reply : Option Int := none
  dispatching : Dispatching := .polling
  tracking : Tracking := .waiting
  notified : List SeccompNotif := []
  decided : List (SeccompNotif × Int) := []
  answered : List (SeccompNotif × Int) := []
  passes : List Pass := []

/-- The results with which the tracker completes calls, by their ids. -/
def completed : Event → Option (Nat × Int)
  | .complete call result => some (call.callId, result)
  | _ => none

/-- `result` in a pass of the tracker with a call. -/
def resultOf (t : Tracker) (i : Pass) (call : BindCall) : Int :=
  match call.request with
  | none => 0
  | some p => (handleRequest t i p).1

inductive Act where
  /-- `SECCOMP_IOCTL_NOTIF_RECV` returns a call for the handler. -/
  | notify (n : SeccompNotif)
  /-- `m_request.post`. -/
  | post
  /-- `m_reply.get`. -/
  | get
  /-- `SECCOMP_IOCTL_NOTIF_SEND`. -/
  | send
  /-- `m_request.try_get` finds a notification. -/
  | take
  /-- It has waited too long, and the pass goes on without a call. -/
  | timeout (i : Pass)
  /-- The tracker reads the call, and comes to a result. -/
  | decide (g : Caller) (i : Pass)
  /-- `m_reply.post`, and the next pass begins. -/
  | complete

/-- A step that takes a call on its way from the kernel and back. -/
def Act.forwards : Act → Bool
  | .notify _ => false
  | .timeout _ => false
  | _ => true

def step (w : World) : Act → Option World
  | .notify n =>
    match w.dispatching with
    | .polling => some { w with dispatching := .posting n, notified := w.notified ++ [n] }
    | _ => none
  | .post =>
    match w.dispatching with
    | .posting n =>
      ((waitableValue _).apply (.post n) w.request).map fun r =>
        { w with request := r, dispatching := .getting n }
    | _ => none
  | .get =>
    match w.dispatching, w.reply with
    | .getting n, some result =>
      ((waitableValue _).apply .get w.reply).map fun r =>
        { w with reply := r, dispatching := .sending n result }
    | _, _ => none
  | .send =>
    match w.dispatching with
    | .sending n result => some { w with dispatching := .polling, answered := w.answered ++ [(n, result)] }
    | _ => none
  | .take =>
    match w.tracking, w.request with
    | .waiting, some n =>
      ((waitableValue _).apply .try_get w.request).map fun r => { w with request := r, tracking := .reading n }
    | _, _ => none
  | .timeout i =>
    match w.tracking with
    | .waiting => some { w with passes := w.passes ++ [{ i with bindCall := none }] }
    | _ => none
  | .decide g i =>
    match w.tracking with
    | .reading n =>
      let call := ReadNextRequest g n
      let i := { i with bindCall := some call }
      let result := resultOf (run w.passes) i call
      some { w with
        tracking := .replying result
        decided := w.decided ++ [(n, result)]
        passes := w.passes ++ [i] }
    | _ => none
  | .complete =>
    match w.tracking with
    | .replying result =>
      ((waitableValue _).apply (.post result) w.reply).map fun r => { w with reply := r, tracking := .waiting }
    | _ => none

/-! ## Passes and results -/

theorem completed_pass_some {t : Tracker} {i : Pass} {call : BindCall} (hcall : i.bindCall = some call) :
    (pass t i).2.filterMap completed = [(call.callId, resultOf t i call)] := by
  cases hp : call.request with
  | some p =>
    have hnone : (handleRequest t i p).2.filterMap completed = [] := by
      unfold handleRequest
      split <;> rfl
    rw [pass_answer hcall hp, List.filterMap_append, hnone, resultOf, hp]
    rfl
  | none =>
    have hsilent : (takeRefresh (answerCall t i).1 i).2 = [] := by
      rw [takeRefresh_events, processedRefresh, if_neg (by rw [hcall]; rintro ⟨⟩)]
      rfl
    have hanswer : (answerCall t i).2 = [.complete call 0] := by
      simp only [answerCall, hcall, hp]
    rw [GnsPortTracker.pass, hsilent, List.append_nil, hanswer, resultOf, hp]
    rfl

theorem completed_pass_none {t : Tracker} {i : Pass} (hcall : i.bindCall = none) :
    (pass t i).2.filterMap completed = [] := by
  have hanswer : answerCall t i = (t, []) := by
    simp only [answerCall, hcall]
  rw [GnsPortTracker.pass, hanswer, List.nil_append, takeRefresh_events]
  cases processedRefresh t i with
  | none => rfl
  | some r =>
    refine List.filterMap_eq_nil_iff.mpr fun e he => ?_
    obtain ⟨a, -, rfl⟩ := List.mem_map.mp he
    rfl

/-! ## From hand to hand -/

namespace World

variable {w w' : World}

/-- Where the notification is for whose result the dispatcher waits. -/
inductive Handed (w : World) (n : SeccompNotif) : Prop where
  | posted (hrequest : w.request = some n) (hreply : w.reply = none) (ht : w.tracking = .waiting)
    (hdecided : w.decided = w.answered)
  | taken (hrequest : w.request = none) (hreply : w.reply = none) (ht : w.tracking = .reading n)
    (hdecided : w.decided = w.answered)
  | decided {result : Int} (hrequest : w.request = none) (hreply : w.reply = none)
    (ht : w.tracking = .replying result) (hdecided : w.decided = w.answered ++ [(n, result)])
  | completed {result : Int} (hrequest : w.request = none) (hreply : w.reply = some result)
    (ht : w.tracking = .waiting) (hdecided : w.decided = w.answered ++ [(n, result)])

/-- Nothing is in the hands of the tracker. -/
structure Idle (w : World) : Prop where
  request : w.request = none
  reply : w.reply = none
  tracking : w.tracking = .waiting

/-- At most one notification is on its way. -/
inductive Phase (w : World) : Prop where
  | polling (hd : w.dispatching = .polling) (hidle : Idle w) (hdecided : w.decided = w.answered)
    (hnotified : w.notified = w.answered.map Prod.fst)
  | posting {n : SeccompNotif} (hd : w.dispatching = .posting n) (hidle : Idle w)
    (hdecided : w.decided = w.answered) (hnotified : w.notified = w.answered.map Prod.fst ++ [n])
  | getting {n : SeccompNotif} (hd : w.dispatching = .getting n) (hhanded : Handed w n)
    (hnotified : w.notified = w.answered.map Prod.fst ++ [n])
  | sending {n : SeccompNotif} {result : Int} (hd : w.dispatching = .sending n result) (hidle : Idle w)
    (hdecided : w.decided = w.answered ++ [(n, result)])
    (hnotified : w.notified = w.answered.map Prod.fst ++ [n])

structure Sound (w : World) : Prop where
  phase : Phase w
  log : w.decided.map (fun d => (d.1.id, d.2)) = (events w.passes).filterMap completed

theorem Phase.handed (h : Phase w) {n : SeccompNotif} (hd : w.dispatching = .getting n) :
    Handed w n ∧ w.notified = w.answered.map Prod.fst ++ [n] := by
  cases h with
  | getting hd' hhanded hnotified =>
    cases hd.symm.trans hd'
    exact ⟨hhanded, hnotified⟩
  | polling hd' => cases hd.symm.trans hd'
  | posting hd' => cases hd.symm.trans hd'
  | sending hd' => cases hd.symm.trans hd'

theorem Phase.busy (h : Phase w) (ht : w.tracking ≠ .waiting) :
    ∃ n, w.dispatching = .getting n ∧ Handed w n ∧ w.notified = w.answered.map Prod.fst ++ [n] := by
  cases h with
  | getting hd hhanded hnotified => exact ⟨_, hd, hhanded, hnotified⟩
  | polling _ hidle => exact absurd hidle.tracking ht
  | posting _ hidle => exact absurd hidle.tracking ht
  | sending _ hidle => exact absurd hidle.tracking ht

theorem Phase.requested (h : Phase w) {n : SeccompNotif} (hn : w.request = some n) :
    w.dispatching = .getting n ∧ w.reply = none ∧ w.decided = w.answered ∧
      w.notified = w.answered.map Prod.fst ++ [n] := by
  have hnot : ∀ hidle : Idle w, False := by
    intro hidle
    cases hn.symm.trans hidle.request
  cases h with
  | getting hd hhanded hnotified =>
    cases hhanded with
    | posted hrequest hreply _ hdecided =>
      cases hn.symm.trans hrequest
      exact ⟨hd, hreply, hdecided, hnotified⟩
    | taken hrequest => cases hn.symm.trans hrequest
    | decided hrequest => cases hn.symm.trans hrequest
    | completed hrequest => cases hn.symm.trans hrequest
  | polling _ hidle => exact (hnot hidle).elim
  | posting _ hidle => exact (hnot hidle).elim
  | sending _ hidle => exact (hnot hidle).elim

theorem phase_step (h : Phase w) {a : Act} (hstep : step w a = some w') : Phase w' := by
  cases a with
  | notify n =>
    simp only [step] at hstep
    split at hstep <;> cases hstep
    rename_i hd
    cases h with
    | polling _ hidle hdecided hnotified =>
      exact .posting rfl ⟨hidle.request, hidle.reply, hidle.tracking⟩ hdecided
        (congrArg (· ++ [n]) hnotified)
    | posting hd' => cases hd.symm.trans hd'
    | getting hd' => cases hd.symm.trans hd'
    | sending hd' => cases hd.symm.trans hd'
  | post =>
    simp only [step] at hstep
    split at hstep
    · rename_i n hd
      cases h with
      | posting hd' hidle hdecided hnotified =>
        cases hd.symm.trans hd'
        rw [hidle.request] at hstep
        cases hstep
        exact .getting rfl (.posted rfl hidle.reply hidle.tracking hdecided) hnotified
      | polling hd' => cases hd.symm.trans hd'
      | getting hd' => cases hd.symm.trans hd'
      | sending hd' => cases hd.symm.trans hd'
    · cases hstep
  | get =>
    simp only [step] at hstep
    split at hstep
    · rename_i n result hd hreply
      obtain ⟨hhanded, hnotified⟩ := h.handed hd
      rw [hreply] at hstep
      cases hstep
      cases hhanded with
      | completed hrequest hreply' ht hdecided =>
        cases hreply.symm.trans hreply'
        exact .sending rfl ⟨hrequest, rfl, ht⟩ hdecided hnotified
      | posted _ hnone => cases hreply.symm.trans hnone
      | taken _ hnone => cases hreply.symm.trans hnone
      | decided _ hnone => cases hreply.symm.trans hnone
    · cases hstep
  | send =>
    simp only [step] at hstep
    split at hstep <;> cases hstep
    rename_i n result hd
    cases h with
    | sending hd' hidle hdecided hnotified =>
      cases hd.symm.trans hd'
      refine .polling rfl ⟨hidle.request, hidle.reply, hidle.tracking⟩ hdecided (hnotified.trans ?_)
      change _ = (w.answered ++ [(n, result)]).map Prod.fst
      rw [List.map_append]
      rfl
    | polling hd' => cases hd.symm.trans hd'
    | posting hd' => cases hd.symm.trans hd'
    | getting hd' => cases hd.symm.trans hd'
  | take =>
    simp only [step] at hstep
    split at hstep
    · rename_i n ht hn
      obtain ⟨hd, hreply, hdecided, hnotified⟩ := h.requested hn
      rw [hn] at hstep
      cases hstep
      exact .getting hd (.taken rfl hreply rfl hdecided) hnotified
    · cases hstep
  | timeout i =>
    simp only [step] at hstep
    split at hstep <;> cases hstep
    cases h with
    | polling hd hidle hdecided hnotified =>
      exact .polling hd ⟨hidle.request, hidle.reply, hidle.tracking⟩ hdecided hnotified
    | posting hd hidle hdecided hnotified =>
      exact .posting hd ⟨hidle.request, hidle.reply, hidle.tracking⟩ hdecided hnotified
    | sending hd hidle hdecided hnotified =>
      exact .sending hd ⟨hidle.request, hidle.reply, hidle.tracking⟩ hdecided hnotified
    | getting hd hhanded hnotified =>
      refine .getting hd ?_ hnotified
      cases hhanded with
      | posted hrequest hreply ht hdecided => exact .posted hrequest hreply ht hdecided
      | taken hrequest hreply ht hdecided => exact .taken hrequest hreply ht hdecided
      | decided hrequest hreply ht hdecided => exact .decided hrequest hreply ht hdecided
      | completed hrequest hreply ht hdecided => exact .completed hrequest hreply ht hdecided
  | decide g i =>
    simp only [step] at hstep
    split at hstep <;> cases hstep
    rename_i n ht
    obtain ⟨m, hd, hhanded, hnotified⟩ := h.busy (by rw [ht]; rintro ⟨⟩)
    refine .getting hd ?_ hnotified
    cases hhanded with
    | taken hrequest hreply ht' hdecided =>
      cases ht.symm.trans ht'
      exact .decided hrequest hreply rfl (congrArg (· ++ [_]) hdecided)
    | posted _ _ ht' => cases ht.symm.trans ht'
    | decided _ _ ht' => cases ht.symm.trans ht'
    | completed _ _ ht' => cases ht.symm.trans ht'
  | complete =>
    simp only [step] at hstep
    split at hstep
    · rename_i result ht
      obtain ⟨n, hd, hhanded, hnotified⟩ := h.busy (by rw [ht]; rintro ⟨⟩)
      cases hhanded with
      | decided hrequest hreply ht' hdecided =>
        cases ht.symm.trans ht'
        rw [hreply] at hstep
        cases hstep
        exact .getting hd (.completed hrequest rfl rfl hdecided) hnotified
      | posted _ _ ht' => cases ht.symm.trans ht'
      | taken _ _ ht' => cases ht.symm.trans ht'
      | completed _ _ ht' => cases ht.symm.trans ht'
    · cases hstep

theorem log_step (h : w.decided.map (fun d => (d.1.id, d.2)) = (events w.passes).filterMap completed) {a : Act}
    (hstep : step w a = some w') :
    w'.decided.map (fun d => (d.1.id, d.2)) = (events w'.passes).filterMap completed := by
  cases a with
  | timeout i =>
    simp only [step] at hstep
    split at hstep <;> cases hstep
    rw [events_concat, List.filterMap_append, completed_pass_none rfl, List.append_nil]
    exact h
  | decide g i =>
    simp only [step] at hstep
    split at hstep <;> cases hstep
    rw [events_concat, List.filterMap_append, completed_pass_some rfl, List.map_append, h,
      callId_ReadNextRequest]
    rfl
  | notify n =>
    simp only [step] at hstep
    split at hstep <;> cases hstep
    exact h
  | send =>
    simp only [step] at hstep
    split at hstep <;> cases hstep
    exact h
  | post =>
    simp only [step] at hstep
    split at hstep
    · obtain ⟨r, -, rfl⟩ := Option.map_eq_some_iff.mp hstep
      exact h
    · cases hstep
  | get =>
    simp only [step] at hstep
    split at hstep
    · obtain ⟨r, -, rfl⟩ := Option.map_eq_some_iff.mp hstep
      exact h
    · cases hstep
  | take =>
    simp only [step] at hstep
    split at hstep
    · obtain ⟨r, -, rfl⟩ := Option.map_eq_some_iff.mp hstep
      exact h
    · cases hstep
  | complete =>
    simp only [step] at hstep
    split at hstep
    · obtain ⟨r, -, rfl⟩ := Option.map_eq_some_iff.mp hstep
      exact h
    · cases hstep

theorem reaches_sound (h : Reaches step (fun _ _ => True) {} w) : Sound w :=
  h.invariant ⟨.polling rfl ⟨rfl, rfl, rfl⟩ rfl rfl, rfl⟩
    fun _ _ _ hw _ hstep => ⟨phase_step hw.phase hstep, log_step hw.log hstep⟩

/-! ## Every run -/

def responses (w : World) : List Response := w.answered.map fun a => respond a.1 a.2

/-- What the kernel has been told of the calls. -/
structure Answered (w : World) : Prop where
  /-- Each call is answered once, in the order in which the kernel told of them; one of them at most is not
  answered yet. -/
  order : ∃ rest, w.notified.map SeccompNotif.id = w.responses.map Response.id ++ rest ∧ rest.length ≤ 1
  /-- The answer is the result with which the tracker completes this very call. -/
  told : (w.responses.map fun r => (r.id, -r.error)) <+: (events w.passes).filterMap completed
  /-- A call goes on exactly if its result is 0. -/
  continued : ∀ r ∈ w.responses, r.flags = SECCOMP_USER_NOTIF_FLAG_CONTINUE ↔ r.error = 0

theorem Handed.answered_begins {n : SeccompNotif} (h : Handed w n) : w.answered <+: w.decided := by
  cases h with
  | posted _ _ _ hdecided => exact hdecided ▸ List.prefix_rfl
  | taken _ _ _ hdecided => exact hdecided ▸ List.prefix_rfl
  | decided _ _ _ hdecided => exact ⟨_, hdecided.symm⟩
  | completed _ _ _ hdecided => exact ⟨_, hdecided.symm⟩

theorem Phase.answered_begins (h : Phase w) : w.answered <+: w.decided := by
  cases h with
  | polling _ _ hdecided => exact hdecided ▸ List.prefix_rfl
  | posting _ _ hdecided => exact hdecided ▸ List.prefix_rfl
  | getting _ hhanded => exact hhanded.answered_begins
  | sending _ _ hdecided => exact ⟨_, hdecided.symm⟩

theorem Phase.exists_rest (h : Phase w) :
    ∃ rest, w.notified = w.answered.map Prod.fst ++ rest ∧ rest.length ≤ 1 := by
  cases h with
  | polling _ _ _ hnotified => exact ⟨[], by rw [hnotified, List.append_nil], Nat.zero_le _⟩
  | posting _ _ _ hnotified => exact ⟨_, hnotified, Nat.le_refl _⟩
  | getting _ _ hnotified => exact ⟨_, hnotified, Nat.le_refl _⟩
  | sending _ _ _ hnotified => exact ⟨_, hnotified, Nat.le_refl _⟩

/-- Every call is answered with the result for this very call. -/
theorem responses_answered (h : Reaches step (fun _ _ => True) {} w) : Answered w := by
  have hsound := reaches_sound h
  refine ⟨?_, ?_, fun r hr => ?_⟩
  · obtain ⟨rest, hrest, hlen⟩ := hsound.phase.exists_rest
    refine ⟨rest.map SeccompNotif.id, ?_, by rwa [List.length_map]⟩
    rw [hrest, List.map_append, responses, List.map_map, List.map_map]
    rfl
  · rw [← hsound.log, responses, List.map_map]
    have hpair : ∀ a : SeccompNotif × Int, (((fun r : Response => (r.id, -r.error)) ∘
        fun a : SeccompNotif × Int => respond a.1 a.2) a) = (a.1.id, a.2) :=
      fun a => Prod.ext rfl (neg_neg a.2)
    rw [funext hpair]
    exact hsound.phase.answered_begins.map _
  · obtain ⟨a, -, rfl⟩ := List.mem_map.mp hr
    by_cases hzero : a.2 = 0
    · simp [respond, hzero]
    · simp [respond, hzero, SECCOMP_USER_NOTIF_FLAG_CONTINUE]

/-- A `bind()` that the tracker cannot make out goes on. -/
def unknown : List Act :=
  [.notify ⟨5, 49, AUDIT_ARCH_64BIT, 3, 0, 0⟩, .post, .take,
    .decide ⟨none, fun _ _ => none, fun _ => none, true⟩ {}, .complete, .get, .send]

theorem unknown_isSome : (unknown.foldlM step {}).isSome := by decide

theorem responses_unknown :
    ((unknown.foldlM step {}).get unknown_isSome).responses = [⟨5, 0, 0, SECCOMP_USER_NOTIF_FLAG_CONTINUE⟩] ∧
      Answered ((unknown.foldlM step {}).get unknown_isSome) :=
  ⟨by decide, responses_answered
    (Reaches.start.foldlM (fun _ _ _ => trivial) (Option.some_get unknown_isSome).symm)⟩

theorem waiting_isSome : ((unknown.take 2).foldlM step {}).isSome := by decide

end World

end WslFreeBSD.Reference.BindNotifications
