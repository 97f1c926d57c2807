import WslFreeBSD.Lib.Transitions
import WslFreeBSD.Plan9.RequestTerms
import WslFreeBSD.Plan9.WorkingRuns

/-!
# The messages of a connection

A client can send any bytes behind a size that `NextMessage` accepts. The message is answered with a reply
that is well formed unless it is cut off inside of its fields, unless its reply is longer than the room
that is made for it, and unless it is a `Tflush` of itself.
-/

namespace WslFreeBSD.Plan9

open Lib

theorem code_of_messageType {code : Nat} {t : MessageType} (h : messageType code = some t) :
    t.code = code := by
  rw [messageType] at h
  simpa using List.find?_some h

/-- The size, the code and the tag of a reply, in front of its body. -/
def Spelled (bytes : Bytes) (code tag : Nat) (body : Bytes) : Prop :=
  bytes = leBytes 4 bytes.length ++ leBytes 1 code ++ leBytes 2 tag ++ body ∧ bytes.length < 2 ^ 32

/-- The bytes are a reply to a message: an error, or the reply to its request. -/
def IsReplyTo (m bytes : Bytes) : Prop :=
  ∃ code body, Spelled bytes code (leAt 5 2 m) body ∧ (code = tlerror + 1 ∧ Spells [.int 4] body ∨
    ∃ t, messageType (leAt 4 1 m) = some t ∧ code = t.code + 1 ∧ Spells (replyFields t) body)

theorem MessageResponse.length_result (w : MessageResponse) (code tag : Nat) :
    (w.result code tag).length = headerSize + w.written.length := by
  simp only [result, List.length_append, length_leBytes, headerSize]

theorem MessageResponse.spelled_result {w : MessageResponse} {code tag : Nat}
    (hsize : headerSize + w.written.length ≤ maximumRequestBufferSize) :
    Spelled (w.result code tag) code tag w.written := by
  rw [Spelled, length_result]
  exact ⟨rfl, hsize.trans_lt (by decide)⟩

theorem Spelled.leAt_size {bytes body : Bytes} {code tag : Nat} (h : Spelled bytes code tag body) :
    leAt 0 4 bytes = bytes.length := by
  conv_lhs => rw [h.1, List.append_assoc, List.append_assoc]
  exact leAt_append_leBytes (l := []) rfl h.2 _

section Messages

variable {S : Setting} {h : Handler} {m : Bytes} {t : MessageType}

/-- Nothing is known of the answers but that the server can take its own identity again. -/
def Setting.restoring : Setting where
  errors := fun _ => True
  own := fun _ _ => trivial
  restored := True
  async := True
  watched := none

theorem Setting.restoring_suits (h : Handler) (m : Bytes) (w : MessageResponse) :
    Setting.restoring.SuitsMessage h m w :=
  fun _ _ => ⟨fun _ _ => nofun, fun _ _ => nofun, fun _ _ => trivial, fun _ => rfl⟩

theorem Setting.restoring_rely {e : Syscall} {r : e.Answer} (hr : Restored e r) :
    Setting.restoring.rely e r := ⟨fun _ _ => trivial, fun _ => hr, nofun⟩

/-- The terms of a message that was received from a socket. -/
abbrev socketTerms (h : Handler) (m : Bytes) : Terms := messageTerms h m staticBufferSize

theorem socketTerms_eq (ht : messageType (leAt 4 1 m) = some t) :
    socketTerms h m = requestTerms h (leAt 5 2 m) t (m.drop headerSize) staticBufferSize := by
  rw [socketTerms, messageTerms, ht]

theorem run_socket (hm : headerSize ≤ m.length)
    (hS : S.SuitsMessage h m (.ofSize staticBufferSize true (by decide)))
    (env : Program.Environment Syscall Syscall.Answer)
    (hg : Action.Given S.rely ((processSocketMessage m h).run env []).2) :
    Action.Ends (Replied S (socketTerms h m) h m) (fun _ _ => False)
      (fun x h' => (socketTerms h m).Stuck S x ⟨h', [], .ofSize staticBufferSize true (by decide)⟩)
      ((processSocketMessage m h).run env []).1 :=
  ((spec_respond hm rfl (by decide) hS).run rfl env hg).2

theorem run_restored (hm : headerSize ≤ m.length) {env : Program.Environment Syscall Syscall.Answer}
    (henv : ∀ t e, Restored e (env t e)) :
    Action.Ends (Replied .restoring (socketTerms h m) h m) (fun _ _ => False)
      (fun x h' => (socketTerms h m).Stuck .restoring x ⟨h', [], .ofSize staticBufferSize true (by decide)⟩)
      ((processSocketMessage m h).run env []).1 :=
  run_socket hm (Setting.restoring_suits h m _) env
    (Action.given_of_environment (fun t e => Setting.restoring_rely (henv t e)) _)

theorem bytes_of_replied {T : Terms} {reply : Reply} {after : Handler}
    (hreply : Replied S T h m reply after) (hoverrun : ¬ T.overrun) :
    IsReplyTo m reply.bytes ∧ reply.bytes.length ≤ after.negotiatedSize := by
  cases reply with
  | answer code tag body =>
    obtain ⟨rfl, rfl, t, ht, -, -, hdone⟩ := hreply
    obtain ⟨hspells, hsize⟩ := hdone.resolve_left hoverrun
    rw [Reply.bytes, MessageResponse.length_result]
    refine ⟨⟨_, _, MessageResponse.spelled_result (hsize.trans after.size_le), .inr ⟨t, ht, ?_, hspells⟩⟩,
      hsize⟩
    rw [code_of_messageType ht]
  | rlerror ecode tag body =>
    obtain ⟨rfl, hwritten, -⟩ := hreply
    have hlength : body.written.length = 4 := by
      rw [hwritten, length_leBytes]
    have hsize : headerSize + body.written.length ≤ after.negotiatedSize := by
      rw [hlength]
      exact le_trans (by decide) after.size_ge
    rw [Reply.bytes, MessageResponse.length_result]
    exact ⟨⟨_, _, MessageResponse.spelled_result (hsize.trans after.size_le),
      .inl ⟨rfl, spells_singleton hlength⟩⟩, hsize⟩

theorem size_of_isReplyTo {bytes : Bytes} (h : IsReplyTo m bytes) : leAt 0 4 bytes = bytes.length := by
  obtain ⟨code, body, hspelled, -⟩ := h
  exact hspelled.leAt_size

/-! ## Requests that go wrong -/

theorem comes_processSocketMessage {x : Halt} {answer : (e : Syscall) → e.Answer} {c : Context}
    (hm : headerSize ≤ m.length) (ht : messageType (leAt 4 1 m) = some t)
    (hc : Action.Comes answer (handleMessage (leAt 5 2 m) t)
      ⟨h, m.drop headerSize, .ofSize staticBufferSize true (by decide)⟩ (.halted x) c) :
    Action.Comes answer (processSocketMessage m) h (.halted x) c.handler := by
  rw [processSocketMessage, respond]
  refine Action.Comes.zoom ?_
  rw [Action.Comes, processMessage_run hm, handlerOf_eq ht]
  exact hc.attempt_halted.halted

theorem reads_past (hm : headerSize ≤ m.length) (ht : messageType (leAt 4 1 m) = some t)
    (henough : ¬ Enough h t (m.drop headerSize)) :
    ∃ after, Action.Comes working (processSocketMessage m) h (.halted .readPast) after := by
  by_cases hneeded : Needed h t (m.drop headerSize)
  · -- the fields are there, and the names of a `Twopen` are not
    rw [Enough, not_or, not_and] at henough
    have hfields := hneeded.resolve_left henough.1
    obtain ⟨rfl, hnames⟩ := Classical.not_imp.mp (henough.2 hfields)
    have huse : h.use9P2000W := by
      simpa [Handler.Refuses] using henough.1
    obtain ⟨c, hc⟩ := comes_wopen (w := .ofSize staticBufferSize true (by decide)) huse hfields hnames
    exact ⟨_, comes_processSocketMessage hm ht hc⟩
  · have hends := run_restored (h := h) hm fun _ e => restored_working e
    rw [Program.run_const] at hends
    obtain ⟨⟨o, after⟩, hrun⟩ : ∃ r, ((processSocketMessage m h).evalWith working).1 = r := ⟨_, rfl⟩
    rw [hrun, socketTerms_eq ht] at hends
    refine ⟨after, ?_⟩
    cases o with
    | value reply =>
      exfalso
      cases reply with
      | answer code tag body =>
        obtain ⟨-, -, t', -, hdone⟩ := hends
        exact hneeded hdone.1
      | rlerror ecode tag body =>
        obtain ⟨-, -, e, -, hfailed⟩ := hends
        exact hneeded hfailed.1
    | error e => exact hends.elim
    | halted x =>
      cases x with
      | readPast => exact hrun
      | writePast => exact absurd hends.1 hneeded
      | terminate => exact absurd trivial hends
      | waiting => exact absurd hends.1 hneeded

theorem writes_past (hm : headerSize ≤ m.length) (hle : m.length ≤ h.negotiatedSize)
    (ht : messageType (leAt 4 1 m) = some t) (hneeded : Needed h t (m.drop headerSize))
    (hoverruns : Overruns h t (m.drop headerSize) staticBufferSize) :
    ∃ after, Action.Comes working (processSocketMessage m) h (.halted .writePast) after := by
  have hnegotiated := h.size_ge
  rw [initialResponseBufferSize] at hnegotiated
  cases t
  case getlock =>
    obtain ⟨f, hf, hopen, hlt⟩ := hoverruns
    have hfields := hneeded.resolve_left id
    -- the client is a part of the message, which is not longer than a response may be
    have hclient := length_of_getlock hfields
    have hheader : headerSize = 7 := rfl
    rw [List.length_drop] at hclient
    rw [min_def] at hlt
    obtain ⟨c, hc⟩ := comes_getLock (w := .ofSize staticBufferSize true (by decide)) hfields hf hopen
      (by omega) rfl (by decide) (by
        change staticBufferSize < _
        split at hlt <;> omega)
    exact ⟨_, comes_processSocketMessage hm ht hc⟩
  case read =>
    obtain ⟨x, hx, haccess, hoffset, hcount⟩ := hoverruns
    obtain ⟨c, hc⟩ := comes_read (w := .ofSize staticBufferSize true (by decide))
      (hneeded.resolve_left id) hx haccess hoffset hcount (by omega) rfl (by decide) (by decide)
    exact ⟨_, comes_processSocketMessage hm ht hc⟩
  all_goals exact hoverruns.elim

theorem waits_for_itself (hm : headerSize ≤ m.length) (ht : messageType (leAt 4 1 m) = some .flush)
    (hfields : holds (requestFields .flush) (m.drop headerSize))
    (htag : leAt 0 2 (m.drop headerSize) = leAt 5 2 m) :
    ∃ after, Action.Comes working (processSocketMessage m) h (.halted .waiting) after := by
  have hflush : Action.Comes working (handleFlush (leAt 5 2 m))
      ⟨h, m.drop headerSize, .ofSize staticBufferSize true (by decide)⟩ (.halted .waiting)
      ⟨h, (m.drop headerSize).drop 2, .ofSize staticBufferSize true (by decide)⟩ := by
    refine uint_then_comes hfields fun _ => ?_
    rw [if_pos htag]
    rfl
  exact ⟨_, comes_processSocketMessage hm ht hflush⟩

end Messages

/-! ## Messages of a client -/

/-- The message is cut off inside of what is read of it. -/
def Malformed (h : Handler) (m : Bytes) : Prop :=
  ∃ t, messageType (leAt 4 1 m) = some t ∧ ¬ Enough h t (m.drop headerSize)

/-- The message is answered with a reply that is well formed, an error if the message is malformed. -/
def Answered (h : Handler) (m : Bytes) : Prop :=
  ∀ env : Program.Environment Syscall Syscall.Answer, (∀ t e, Restored e (env t e)) →
    ∃ reply after, ((processSocketMessage m h).run env []).1 = (.value reply, after) ∧
      IsReplyTo m reply.bytes ∧ (Malformed h m → leAt 4 1 reply.bytes = tlerror + 1)

/-- The reply is written into the response, and has the size that it says and that was negotiated. -/
def Bounded (h : Handler) (m : Bytes) : Prop :=
  ∀ env : Program.Environment Syscall Syscall.Answer,
    ((processSocketMessage m h).run env []).1.1 ≠ .halted .writePast ∧
      ∀ reply after, ((processSocketMessage m h).run env []).1 = (.value reply, after) →
        leAt 0 4 reply.bytes = reply.bytes.length ∧ reply.bytes.length ≤ after.negotiatedSize

section Answers

variable {h : Handler} {m : Bytes}

theorem Enough.needed {t : MessageType} {b : Bytes} (henough : Enough h t b) : Needed h t b :=
  henough.imp_right fun h => h.1

theorem not_answered {x : Halt} {after : Handler}
    (hx : Action.Comes working (processSocketMessage m) h (.halted x) after) : ¬ Answered h m := by
  intro hanswered
  obtain ⟨reply, after', hrun, -⟩ := hanswered (fun _ e => working e) fun _ e => restored_working e
  rw [hx.run] at hrun
  cases hrun

theorem not_bounded {after : Handler}
    (hx : Action.Comes working (processSocketMessage m) h (.halted .writePast) after) : ¬ Bounded h m := by
  intro hbounded
  have hno := (hbounded fun _ e => working e).1
  rw [hx.run] at hno
  exact hno rfl

theorem socketTerms_enough (hok : ∀ t, messageType (leAt 4 1 m) = some t →
    Enough h t (m.drop headerSize)) : (socketTerms h m).enough := by
  cases ht : messageType (leAt 4 1 m) with
  | none => rw [socketTerms, messageTerms, ht]; trivial
  | some t => rw [socketTerms_eq ht]; exact hok t ht

theorem socketTerms_overrun (hok : ∀ t, messageType (leAt 4 1 m) = some t →
    Needed h t (m.drop headerSize) → ¬ Overruns h t (m.drop headerSize) staticBufferSize) :
    ¬ (socketTerms h m).overrun := by
  cases ht : messageType (leAt 4 1 m) with
  | none => rw [socketTerms, messageTerms, ht]; exact id
  | some t => rw [socketTerms_eq ht]; exact fun hno => hok t ht hno.1 hno.2

theorem socketTerms_own (hok : ∀ t, messageType (leAt 4 1 m) = some t →
    ¬ (t = .flush ∧ leAt 0 2 (m.drop headerSize) = leAt 5 2 m)) : ¬ (socketTerms h m).own := by
  cases ht : messageType (leAt 4 1 m) with
  | none => rw [socketTerms, messageTerms, ht]; exact id
  | some t => rw [socketTerms_eq ht]; exact fun hno => hok t ht hno.2

/-- **A message is answered** whatever the system answers if and only if it is not cut off inside of its
fields, its reply has room, and it is not a `Tflush` of itself. -/
theorem answered_iff (hm : headerSize ≤ m.length) (hle : m.length ≤ h.negotiatedSize) :
    Answered h m ↔ ∀ t, messageType (leAt 4 1 m) = some t → Enough h t (m.drop headerSize) ∧
      ¬ Overruns h t (m.drop headerSize) staticBufferSize ∧
      ¬ (t = .flush ∧ leAt 0 2 (m.drop headerSize) = leAt 5 2 m) := by
  constructor
  · intro hanswered t ht
    have henough : Enough h t (m.drop headerSize) := by
      by_contra hno
      obtain ⟨after, hx⟩ := reads_past hm ht hno
      exact not_answered hx hanswered
    refine ⟨henough, fun hno => ?_, ?_⟩
    · obtain ⟨after, hx⟩ := writes_past hm hle ht henough.needed hno
      exact not_answered hx hanswered
    · rintro ⟨rfl, htag⟩
      obtain ⟨after, hx⟩ := waits_for_itself (h := h) hm ht (henough.needed.resolve_left id) htag
      exact not_answered hx hanswered
  · intro hok env henv
    have henough := socketTerms_enough fun t ht => (hok t ht).1
    have hoverrun := socketTerms_overrun fun t ht _ => (hok t ht).2.1
    have hown := socketTerms_own (h := h) fun t ht => (hok t ht).2.2
    have hends := run_restored (h := h) hm henv
    obtain ⟨⟨o, after⟩, hrun⟩ : ∃ r, ((processSocketMessage m h).run env []).1 = r := ⟨_, rfl⟩
    rw [hrun] at hends
    cases o with
    | value reply =>
      refine ⟨reply, after, hrun, (bytes_of_replied hends hoverrun).1, ?_⟩
      rintro ⟨t, ht, hno⟩
      exact absurd (hok t ht).1 hno
    | error e => exact hends.elim
    | halted x =>
      cases x with
      | readPast => exact absurd henough hends
      | writePast => exact absurd hends hoverrun
      | terminate => exact absurd trivial hends
      | waiting => exact absurd hends hown

/-- **A reply stays within its bounds** whatever the system answers if and only if there is room for it. -/
theorem bounded_iff (hm : headerSize ≤ m.length) (hle : m.length ≤ h.negotiatedSize) :
    Bounded h m ↔ ∀ t, messageType (leAt 4 1 m) = some t → Needed h t (m.drop headerSize) →
      ¬ Overruns h t (m.drop headerSize) staticBufferSize := by
  constructor
  · intro hbounded t ht hneeded hno
    obtain ⟨after, hx⟩ := writes_past hm hle ht hneeded hno
    exact not_bounded hx hbounded
  · intro hok env
    have hoverrun := socketTerms_overrun hok
    have hends := run_socket (S := .free) (h := h) hm (fun t _ => Setting.free_suits h t _ _) env
      fun c _ => Setting.free_rely c.1 c.2
    constructor
    · intro hx
      rw [Action.Ends, hx] at hends
      exact hoverrun hends
    · intro reply after hrun
      rw [hrun] at hends
      obtain ⟨hreply, hsize⟩ := bytes_of_replied hends hoverrun
      exact ⟨size_of_isReplyTo hreply, hsize⟩

end Answers

/-! ## Clients -/

/-- A message that was received from a socket, and the system that answers the calls. -/
structure Received where
  message : Bytes
  env : Program.Environment Syscall Syscall.Answer

/-- The handler behind a message that is answered. -/
def Handler.receive (h : Handler) (a : Received) : Option Handler :=
  match ((processSocketMessage a.message h).run a.env []).1 with
  | (.value _, after) => some after
  | _ => none

/-- A message with its header, over a system that works. -/
def received (t : MessageType) (body : Bytes) : Received :=
  ⟨leBytes 4 (headerSize + body.length) ++ leBytes 1 t.code ++ leBytes 2 1 ++ body, fun _ e => working e⟩

/-- `Tversion` of 8192 bytes and `9P2000.L`. -/
def receivedVersion : Received := received .version (leBytes 4 8192 ++ leBytes 2 8 ++ protocolVersionL)

/-- `Tattach` of the fid `0` by root. -/
def receivedAttach : Received :=
  received .attach (leBytes 4 0 ++ leBytes 4 (2 ^ 32 - 1) ++ leBytes 2 0 ++ leBytes 2 0 ++ leBytes 4 0)

/-- `Tlopen` of the fid `0`. -/
def receivedOpen : Received := received .lopen (leBytes 4 0 ++ leBytes 4 0)

/-- `Tgetlock` of the fid `0`, for a client with 230 characters. -/
def receivedGetLock : Received :=
  received .getlock (leBytes 4 0 ++ leBytes 1 0 ++ leBytes 8 0 ++ leBytes 8 0 ++ leBytes 4 0 ++
    leBytes 2 230 ++ List.replicate 230 97)

theorem answered_iff_version : Answered (Handler.fresh false) receivedVersion.message ↔
    ∀ t, messageType (leAt 4 1 receivedVersion.message) = some t →
      Enough (Handler.fresh false) t (receivedVersion.message.drop headerSize) ∧
      ¬ Overruns (Handler.fresh false) t (receivedVersion.message.drop headerSize) staticBufferSize ∧
      ¬ (t = .flush ∧ leAt 0 2 (receivedVersion.message.drop headerSize) = leAt 5 2 receivedVersion.message) :=
  answered_iff (by decide) (by decide)

/-- A `Tstatfs` that is only a header. -/
theorem not_answered_statFs : ¬ ∀ m, headerSize ≤ m.length →
    m.length ≤ (Handler.fresh false).negotiatedSize → Answered (Handler.fresh false) m := by
  intro hall
  have hx : Action.Comes working (processSocketMessage (received .statfs []).message) (Handler.fresh false)
      (.halted .readPast) (Handler.fresh false) := rfl
  exact not_answered hx (hall _ (by decide) (by decide))

theorem bounded_iff_version : Bounded (Handler.fresh false) receivedVersion.message ↔
    ∀ t, messageType (leAt 4 1 receivedVersion.message) = some t →
      Needed (Handler.fresh false) t (receivedVersion.message.drop headerSize) →
      ¬ Overruns (Handler.fresh false) t (receivedVersion.message.drop headerSize) staticBufferSize :=
  bounded_iff (by decide) (by decide)

set_option maxRecDepth 4000 in
/-- A lock is asked for by a client whose name does not fit into the response. -/
theorem not_bounded_getLock : ¬ ∀ h, Reaches Handler.receive (fun _ _ => True) (Handler.fresh false) h →
    ∀ m, headerSize ≤ m.length → m.length ≤ h.negotiatedSize → Bounded h m := by
  intro hall
  obtain ⟨h₁, h₁_eq⟩ : ∃ h, (Handler.fresh false).receive receivedVersion = some h := ⟨_, rfl⟩
  obtain ⟨h₂, h₂_eq⟩ : ∃ h, h₁.receive receivedAttach = some h := by
    cases h₁_eq
    exact ⟨_, rfl⟩
  obtain ⟨h, h_eq, hle, after, hx⟩ : ∃ h, h₂.receive receivedOpen = some h ∧
      receivedGetLock.message.length ≤ h.negotiatedSize ∧
      ∃ after, Action.Comes working (processSocketMessage receivedGetLock.message) h
        (.halted .writePast) after := by
    cases h₁_eq
    cases h₂_eq
    exact ⟨_, rfl, by decide, _, rfl⟩
  have hreaches := ((Reaches.start.step (C := fun _ _ => True) trivial h₁_eq).step trivial h₂_eq).step
    trivial h_eq
  exact not_bounded hx (hall h hreaches _ (by decide) hle)

end WslFreeBSD.Plan9
