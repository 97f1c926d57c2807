import WslFreeBSD.Gns.Handlers

/-!
# One reply for every message

The messages that a program sends are the `send` calls of its trace. A part of a handler that
sends nothing is `Silent`; a handler `SendsOne` message. Both properties pass through `bind`, so
that a handler is treated in the order of its text: silent parts, then the reply. Whatever the
payload is and however the commands end, every handler sends exactly one reply to its message.
-/

namespace WslFreeBSD.Gns

open Lib Protocol

/-! ## Replies -/

def replyType (m : Bytes) : Nat :=
  if messageType m = LxGnsMessageIfStateChangeRequest ∧ headerSize < m.length then
    LxGnsMessageIfStateChangeResponse
  else LxGnsMessageResult

/-- A well-formed reply with the sequence number of the message and the type that belongs to
it. -/
structure IsReplyTo (m r : Bytes) : Prop where
  wellFormed : messageFormat.WellFormed r
  sequence : sequenceNumber r = sequenceNumber m
  type : messageType r = replyType m

theorem replyType_of_ne {m : Bytes} (h : messageType m ≠ LxGnsMessageIfStateChangeRequest) :
    replyType m = LxGnsMessageResult := if_neg fun hc => h hc.1

theorem replyType_lt (m : Bytes) : replyType m < 2 ^ 32 := by
  unfold replyType
  split <;> decide

def Short (note : Bytes) : Prop := note.length ≤ 127

instance (note : Bytes) : Decidable (Short note) := inferInstanceAs (Decidable (_ ≤ _))

theorem isReplyTo_gnsResult (m : Bytes) (result : Int) {note : Option Bytes}
    (hn : ∀ n ∈ note, Short n) :
    IsReplyTo m (gnsResult (replyType m) (sequenceNumber m) result note) := by
  obtain ⟨buffer, hbuffer, hlen⟩ : ∃ buffer : Bytes, buffer.length ≤ 128 ∧
      gnsResult (replyType m) (sequenceNumber m) result note =
        header (replyType m) (16 + buffer.length) (sequenceNumber m) ++
          (leBytes 4 (result % 2 ^ 32).toNat ++ buffer) := by
    cases note with
    | none => exact ⟨[], by simp, rfl⟩
    | some n =>
      have hshort : n.length ≤ 127 := hn n rfl
      exact ⟨n ++ [0], by simp; omega, rfl⟩
  rw [hlen]
  refine ⟨wellFormed_header_append (by omega) ?_, ?_, ?_⟩
  · rw [List.length_append, length_leBytes]
    omega
  · exact sequenceNumber_header_append (sequenceNumber_lt m) _ _ _
  · exact messageType_header_append (replyType_lt m) _ _ _

/-! ## Silence and single sends -/

def sent (t : HandlerTrace) : List Bytes :=
  t.filterMap fun c =>
    match c.1 with
    | .send m => some m
    | _ => none

@[simp] theorem sent_append (t u : HandlerTrace) : sent (t ++ u) = sent t ++ sent u :=
  List.filterMap_append

variable {α β : Type}

/-- Nothing is sent, and the value satisfies `V`. -/
def Silent (p : Handler α) (V : α → Prop) : Prop := p.Ensures fun a t => V a ∧ sent t = []

/-- Exactly one message is sent, and it satisfies `R`. -/
def SendsOne (p : Handler α) (R : Bytes → Prop) : Prop :=
  p.Ensures fun _ t => ∃ r, sent t = [r] ∧ R r

theorem silent_pure {V : α → Prop} {a : α} (h : V a) : Silent (pure a) V := ⟨h, rfl⟩

theorem Silent.bind {p : Handler α} {f : α → Handler β} {V : α → Prop} {W : β → Prop}
    (hp : Silent p V) (hf : ∀ a, V a → Silent (f a) W) : Silent (p >>= f) W := by
  refine Program.ensures_bind.mpr (hp.mono ?_)
  rintro a t ⟨ha, ht⟩
  refine (hf a ha).mono ?_
  rintro b u ⟨hb, hu⟩
  exact ⟨hb, by rw [sent_append, ht, hu]; rfl⟩

theorem Silent.sendsOne_bind {p : Handler α} {f : α → Handler β} {V : α → Prop}
    {R : Bytes → Prop} (hp : Silent p V) (hf : ∀ a, V a → SendsOne (f a) R) :
    SendsOne (p >>= f) R := by
  refine Program.ensures_bind.mpr (hp.mono ?_)
  rintro a t ⟨ha, ht⟩
  refine (hf a ha).mono ?_
  rintro b u ⟨r, hu, hr⟩
  exact ⟨r, by rw [sent_append, ht, hu]; rfl, hr⟩

theorem SendsOne.bind_pure {p : Handler α} {R : Bytes → Prop} (hp : SendsOne p R) (b : β) :
    SendsOne (p >>= fun _ => pure b) R := by
  refine Program.ensures_bind.mpr (hp.mono ?_)
  rintro a t ⟨r, ht, hr⟩
  exact ⟨r, by rw [List.append_nil]; exact ht, hr⟩

theorem SendsOne.ite {c : Prop} [Decidable c] {p q : Handler α} {R : Bytes → Prop}
    (hp : c → SendsOne p R) (hq : ¬ c → SendsOne q R) : SendsOne (if c then p else q) R := by
  by_cases h : c
  · rw [if_pos h]
    exact hp h
  · rw [if_neg h]
    exact hq h

theorem sendsOne_send {m : Bytes} {R : Bytes → Prop} (h : R m) : SendsOne (send m) R :=
  fun _ => ⟨m, rfl, h⟩

theorem silent_perform {e : Op} (he : ∀ m, e ≠ .send m) :
    Silent (Program.perform e) fun _ => True := by
  intro r
  refine ⟨trivial, ?_⟩
  cases e with
  | send m => exact absurd rfl (he m)
  | _ => rfl

theorem silent_gnsRunCmd (cmd : Bytes) : Silent (gnsRunCmd cmd) fun _ => True :=
  (silent_perform (by simp)).bind fun _ _ => silent_pure trivial

theorem silent_runAll (cmds : List Bytes) : Silent (runAll cmds) fun _ => True := by
  induction cmds with
  | nil => exact silent_pure trivial
  | cons cmd cmds ih => exact (silent_gnsRunCmd cmd).bind fun _ _ => ih

theorem silent_runNoted (command : Option Bytes) {applied failed : String}
    (ha : Short (ascii applied)) (hf : Short (ascii failed)) :
    Silent (runNoted command applied failed) Short := by
  cases command with
  | none => exact silent_pure ha
  | some cmd =>
    refine (silent_gnsRunCmd cmd).bind fun rc _ => silent_pure ?_
    split
    · exact hf
    · exact ha

theorem silent_applyInterfaceSettings (s : InterfaceSettings) :
    Silent (applyInterfaceSettings s) fun _ => True := by
  have haddress : Silent (applyAddress s.interface s.address) fun _ => True := by
    unfold applyAddress
    split
    · exact (silent_gnsRunCmd _).bind fun _ _ => silent_pure trivial
    · exact silent_pure trivial
  have hroute : Silent (addDefaultRoute s.gateway) fun _ => True := by
    unfold addDefaultRoute
    split
    · exact (silent_gnsRunCmd _).bind fun _ _ => silent_runAll _
    · exact silent_pure trivial
  refine haddress.bind fun result _ => ?_
  refine (silent_runAll _).bind fun _ _ => ?_
  exact hroute.bind fun _ _ => silent_pure trivial

theorem silent_gnsApplyDnsChange (g : Globals) (settings requestType : Bytes) :
    Silent (gnsApplyDnsChange g settings requestType) fun _ => True := by
  unfold gnsApplyDnsChange
  split_ifs
  · exact silent_pure trivial
  · exact (silent_perform (by simp)).bind fun _ _ => silent_pure trivial
  · exact silent_pure trivial

theorem silent_withSettings (body : Bytes) (size : Nat) {apply : Bytes → Handler Unit}
    (h : ∀ s, Silent (apply s) fun _ => True) :
    Silent (withSettings body size apply) fun _ => True := by
  unfold withSettings
  split
  · exact (h _).bind fun _ _ => silent_pure trivial
  · exact silent_pure trivial

theorem silent_applyNotification (g : Globals) (body : Bytes) :
    Silent (applyNotification g body) fun _ => True := by
  unfold applyNotification
  dsimp only
  split_ifs
  · exact silent_withSettings _ _ fun s => silent_runAll _
  · exact silent_withSettings _ _ fun s => silent_runAll _
  · exact silent_withSettings _ _ fun s => silent_gnsApplyDnsChange g s _
  · exact silent_withSettings _ _ fun s => silent_runAll _
  · exact silent_withSettings _ _ fun s => silent_runAll _
  · exact silent_pure trivial

theorem silent_connectTest (content : Bytes) :
    Silent (connectTest content) fun verdict => Short verdict.2 := by
  have hverdict : ∀ udp outcome, Short (connectVerdict udp outcome).2 := by
    intro udp outcome
    cases outcome with
    | none => exact (by decide : Short (ascii "socket creation failed"))
    | some connected =>
      unfold connectVerdict
      dsimp only
      split
      · exact (by decide : Short (ascii "connect succeeded"))
      · exact (by decide : Short (ascii "connect failed (non-fatal)"))
  unfold connectTest
  dsimp only
  split
  · exact (silent_perform (by simp)).bind fun outcome _ => silent_pure (hverdict _ outcome)
  · exact silent_pure (by decide : Short (ascii "connect ok"))

theorem silent_querySetting (name setting : Bytes) : Silent (querySetting name setting) Short := by
  have hcut : ∀ text : Bytes, Short (snprintf 128 text) := fun text => List.length_take_le _ _
  have hnote : ∀ line, Short (settingNote setting line) := by
    intro line
    unfold settingNote
    dsimp only
    split
    · exact hcut _
    · exact hcut _
  unfold querySetting
  split
  · exact (silent_perform (by simp)).bind fun line _ => silent_pure (hnote line)
  · exact silent_pure (by decide : Short (ascii "device setting queried"))

/-! ## The handlers -/

section Handlers

variable {m : Bytes} (hm : messageType m ≠ LxGnsMessageIfStateChangeRequest)

include hm

theorem sendsOne_note (result : Int) {note : Bytes} (hn : Short note) :
    SendsOne (gnsSendResult (sequenceNumber m) result note) (IsReplyTo m) := by
  have hshort : ∀ n ∈ some note, Short n := by
    intro n h
    obtain rfl := Option.some.inj h
    exact hn
  have h := isReplyTo_gnsResult m result hshort
  rw [replyType_of_ne hm] at h
  exact sendsOne_send h

theorem sendsOne_noteOf (result : Int) {ok other : Bytes} (hok : Short ok) (hother : Short other) :
    SendsOne (gnsSendResult (sequenceNumber m) result (if result = 0 then ok else other))
      (IsReplyTo m) := by
  split
  · exact sendsOne_note hm _ hok
  · exact sendsOne_note hm _ hother

theorem sendsOne_gnsHandleInterfaceConfiguration :
    SendsOne (gnsHandleInterfaceConfiguration m (sequenceNumber m)) (IsReplyTo m) := by
  unfold gnsHandleInterfaceConfiguration
  split
  · exact sendsOne_note hm _ (by decide)
  · refine (silent_runAll _).sendsOne_bind fun _ _ => ?_
    refine (silent_applyInterfaceSettings _).sendsOne_bind fun result _ => ?_
    exact sendsOne_noteOf hm result (by decide) (by decide)

theorem sendsOne_gnsHandleNotification (g : Globals) :
    SendsOne (gnsHandleNotification g m (sequenceNumber m)) (IsReplyTo m) := by
  unfold gnsHandleNotification
  split
  · exact sendsOne_note hm _ (by decide)
  · refine (silent_applyNotification g _).sendsOne_bind fun result _ => ?_
    exact sendsOne_noteOf hm result (by decide) (by decide)

theorem sendsOne_gnsHandleSetupIpv6 :
    SendsOne (gnsHandleSetupIpv6 (sequenceNumber m)) (IsReplyTo m) := by
  refine (silent_perform (by simp)).sendsOne_bind fun available _ => ?_
  refine (silent_runAll _).sendsOne_bind fun _ _ => ?_
  exact sendsOne_note hm _ (by decide)

theorem sendsOne_handleConnectTest :
    SendsOne (handleConnectTest m (sequenceNumber m)) (IsReplyTo m) := by
  unfold handleConnectTest
  split
  · exact sendsOne_note hm _ (by decide)
  · refine (silent_connectTest _).sendsOne_bind fun verdict hshort => ?_
    exact sendsOne_note hm _ hshort

theorem sendsOne_handleVmNicCreated (g : Globals) :
    SendsOne (handleVmNicCreated g m (sequenceNumber m)) (IsReplyTo m) := by
  unfold handleVmNicCreated
  split
  · exact (sendsOne_note hm _ (by decide)).bind_pure g
  · refine (silent_runAll _).sendsOne_bind fun _ _ => ?_
    exact (sendsOne_note hm _ (by decide)).bind_pure _

theorem sendsOne_commandHandler (command : Bytes → Option Bytes) {applied failed : String}
    (ha : Short (ascii applied)) (hf : Short (ascii failed)) :
    SendsOne (commandHandler command applied failed m (sequenceNumber m)) (IsReplyTo m) := by
  unfold commandHandler
  split
  · exact sendsOne_note hm _ (by decide)
  · refine (silent_runNoted _ ha hf).sendsOne_bind fun note hshort => ?_
    exact sendsOne_note hm _ hshort

theorem sendsOne_gnsHandleListenerRelay :
    SendsOne (gnsHandleListenerRelay m (sequenceNumber m)) (IsReplyTo m) := by
  unfold gnsHandleListenerRelay
  split
  · exact sendsOne_note hm _ (by decide)
  · exact sendsOne_note hm _ (by decide)

theorem sendsOne_gnsHandleDeviceSetting :
    SendsOne (gnsHandleDeviceSetting m (sequenceNumber m)) (IsReplyTo m) := by
  unfold gnsHandleDeviceSetting
  split
  · exact sendsOne_note hm _ (by decide)
  · refine (silent_querySetting _ _).sendsOne_bind fun note hshort => ?_
    exact sendsOne_note hm _ hshort

end Handlers

theorem sendsOne_gnsHandleIfStateChange {m : Bytes}
    (hm : messageType m = LxGnsMessageIfStateChangeRequest) :
    SendsOne (gnsHandleIfStateChange m (sequenceNumber m)) (IsReplyTo m) := by
  have hreply : ∀ (result : Int) (note : String), Short (ascii note) →
      IsReplyTo m (gnsResult (replyType m) (sequenceNumber m) result (some (ascii note))) := by
    intro result note hn
    refine isReplyTo_gnsResult m result fun n h => ?_
    obtain rfl := Option.some.inj h
    exact hn
  unfold gnsHandleIfStateChange gnsExtractContent
  by_cases hlen : m.length ≤ headerSize
  · have htype : replyType m = LxGnsMessageResult := if_neg fun hc => absurd hc.2 (by omega)
    have h := hreply (-1) "no content" (by decide)
    rw [htype] at h
    rw [if_pos hlen]
    exact sendsOne_send h
  · have htype : replyType m = LxGnsMessageIfStateChangeResponse := if_pos ⟨hm, by omega⟩
    have h := hreply 0 "state changed" (by decide)
    rw [htype] at h
    rw [if_neg hlen]
    exact (silent_runAll _).sendsOne_bind fun _ _ => sendsOne_send h

end WslFreeBSD.Gns
