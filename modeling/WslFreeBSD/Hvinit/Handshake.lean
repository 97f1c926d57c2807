import WslFreeBSD.Hvinit.Main
import WslFreeBSD.Hvinit.Replies

/-!
# The handshake on a stream

`Initialize` and `CreateSession` are read with one `recv` each for the header, the body and the
second message, and a short result is not completed. `wholeHandshake` is the handshake on messages,
for which the stream is cut as the host has sent it. The handshake on the stream agrees with it for
exactly the cuts at which no `recv` ends in the middle of a message or goes on after it
(`handshake_agrees_iff`).

Whatever the cuts are, `OobeResult` is the last message of the handshake and not the first one, and
its sequence number is 1 (`oobe_out_of_sequence`).
-/

namespace WslFreeBSD.Hvinit

open Lib Protocol

/-! ## What is sent -/

/-- `InitializeResponse` has the sequence number of `Initialize`. -/
theorem answers_handleInitialize (g : Globals) (msg : Bytes) : Answers msg (handleInitialize g msg) := by
  refine Silent.answers ((uses_loadSettings g msg).silent (by simp)) fun g => ?_
  refine Silent.answers ((uses_timezoneApply _ _).silent (by simp)) fun _ => ?_
  refine Silent.answers ((uses_applyNetwork g).silent (by simp)) fun _ => ?_
  refine Silent.answers ((uses_mountInitial g).silent (by simp)) fun mounted => ?_
  refine Silent.answers ((uses_bootCommand g).silent (by simp)) fun _ => ?_
  refine (silent_perform (by simp [Op.subsystem])).answers fun _ => ?_
  refine Silent.answers ((uses_plan9StartServer _).silent (by simp)) fun server => ?_
  refine Answers.bind (answers_send (isReplyTo_header (by decide) ?_)) fun _ => silent_pure _
  simp only [List.length_append, length_leBytes]
  decide

/-- One message with a given sequence number is sent. -/
def SendsNumbered {α : Type} (seq : Nat) (p : InitProgram α) : Prop :=
  p.Shows initMessage fun _ out => ∃ r, out = [r] ∧ sequenceNumber r = seq

theorem sendsNumbered_createSession (g : Globals) (port : Nat) {seq : Nat} (h : seq < 2 ^ 32) :
    SendsNumbered seq (keep g (sendCreateSessionResponse port seq)) := by
  refine Program.Shows.before_hidden ?_ fun _ => silent_pure g
  exact Program.shows_perform fun _ => ⟨_, rfl, sequenceNumber_header_append h _ _ _⟩

theorem sendsNumbered_enterLoop (g : Globals) : SendsNumbered 1 (Init.enterLoop g) := by
  refine Program.Shows.before_hidden (Program.shows_perform fun _ =>
    ⟨_, rfl, sequenceNumber_header_append (by decide) _ _ _⟩) fun _ => ?_
  exact Silent.bind ((uses_gnsStartEngine _ _).silent (by simp)) fun _ => silent_pure _

namespace Init

variable (env : InitEnvironment)

theorem sent_exec_one {s : Init} {p : Globals → InitProgram Globals} {R : Bytes → Prop}
    (hp : (p s.globals).Shows initMessage fun _ out => ∃ r, out = [r] ∧ R r) :
    ∃ r, sent (s.exec env p).trace = sent s.trace ++ [r] ∧ R r := by
  obtain ⟨out, hout, r, rfl, hr⟩ := sent_exec env hp
  exact ⟨r, hout, hr⟩

/-! ## Receiving -/

/-- No `recv` ends in the middle of `Initialize`. -/
def InitializeWhole (cuts : Cuts) (m : Bytes) : Prop :=
  headerSize ≤ cuts.header ∧ (m.length = headerSize ∨ m.length - headerSize ≤ cuts.body)

instance (cuts : Cuts) (m : Bytes) : Decidable (InitializeWhole cuts m) :=
  inferInstanceAs (Decidable (_ ∧ _))

theorem recvOnce_append {n available : Nat} {got rest : Bytes} (hlen : got.length = n)
    (h : n ≤ available) : recvOnce n available (got ++ rest) = (got, rest) := by
  unfold recvOnce
  rw [Nat.min_eq_left h, List.take_left' hlen, List.drop_left' hlen]

/-- An `Initialize` message that is received whole is handled. -/
theorem receiveInitialize_whole {s : Init} {cuts : Cuts} {m rest : Bytes}
    (hm : messageFormat.WellFormed m) (hin : s.incoming = m ++ rest) (hcuts : InitializeWhole cuts m) :
    s.receiveInitialize env cuts =
      { s with incoming := rest }.exec env (handleInitialize · m) := by
  have hhdr : headerSize ≤ m.length := hm.1
  have hsize : messageSize (m.take headerSize) = m.length := hm.sizeOf_take
  have hfirst : recvOnce headerSize cuts.header s.incoming =
      (m.take headerSize, m.drop headerSize ++ rest) := by
    have hsplit : s.incoming = m.take headerSize ++ (m.drop headerSize ++ rest) := by
      rw [hin, ← List.append_assoc, List.take_append_drop]
    rw [hsplit]
    exact recvOnce_append (by rw [List.length_take, Nat.min_eq_left hhdr]) hcuts.1
  have hbody : (if m.length - headerSize = 0 then ([], m.drop headerSize ++ rest)
      else recvOnce (m.length - headerSize) cuts.body (m.drop headerSize ++ rest)) =
        (m.drop headerSize, rest) := by
    split
    · rename_i hzero
      rw [List.drop_of_length_le (by omega), List.nil_append]
    · refine recvOnce_append (List.length_drop) ?_
      rcases hcuts.2 with heq | hle <;> omega
  have hlen : ¬ ((m.take headerSize).length ≠ headerSize ∨ m.length < headerSize) := by
    rw [List.length_take]
    omega
  unfold receiveInitialize
  simp only [hfirst, hsize, if_neg hlen, hbody, List.length_drop, ne_eq, not_true_eq_false, if_false,
    List.take_append_drop]

theorem receiveInitialize_cut {s : Init} {cuts : Cuts} {m rest : Bytes}
    (hm : messageFormat.WellFormed m) (hin : s.incoming = m ++ rest)
    (hcuts : ¬ InitializeWhole cuts m) :
    ∃ left, left ≠ [] ∧ s.receiveInitialize env cuts = { s with incoming := left } := by
  have hhdr : headerSize ≤ m.length := hm.1
  have hsize : messageSize (m.take headerSize) = m.length := hm.sizeOf_take
  by_cases hheader : headerSize ≤ cuts.header
  · have hbody : m.length ≠ headerSize ∧ cuts.body < m.length - headerSize := by
      refine ⟨fun h => hcuts ⟨hheader, .inl h⟩, ?_⟩
      exact Nat.lt_of_not_le fun h => hcuts ⟨hheader, .inr h⟩
    have hfirst : recvOnce headerSize cuts.header s.incoming =
        (m.take headerSize, m.drop headerSize ++ rest) := by
      have hsplit : s.incoming = m.take headerSize ++ (m.drop headerSize ++ rest) := by
        rw [hin, ← List.append_assoc, List.take_append_drop]
      rw [hsplit]
      exact recvOnce_append (by rw [List.length_take, Nat.min_eq_left hhdr]) hheader
    have hlen : ¬ ((m.take headerSize).length ≠ headerSize ∨ m.length < headerSize) := by
      rw [List.length_take]
      omega
    have hne : m.length - headerSize ≠ 0 := by omega
    have hshort : (recvOnce (m.length - headerSize) cuts.body (m.drop headerSize ++ rest)).1.length ≠
        m.length - headerSize := by
      simp only [recvOnce, List.length_take]
      omega
    refine ⟨(recvOnce (m.length - headerSize) cuts.body (m.drop headerSize ++ rest)).2, ?_, ?_⟩
    · intro hnil
      have hlength := congrArg List.length hnil
      simp only [recvOnce, List.length_drop, List.length_append, List.length_nil] at hlength
      omega
    · unfold receiveInitialize
      simp only [hfirst, hsize, if_neg hlen, if_neg hne, if_pos hshort]
  · have hshort : (recvOnce headerSize cuts.header s.incoming).1.length ≠ headerSize := by
      simp only [recvOnce, List.length_take]
      omega
    refine ⟨(recvOnce headerSize cuts.header s.incoming).2, ?_, ?_⟩
    · intro hnil
      have hlength := congrArg List.length hnil
      simp only [recvOnce, hin, List.length_drop, List.length_append, List.length_nil] at hlength
      omega
    · unfold receiveInitialize
      dsimp only
      rw [if_pos (.inl hshort)]

theorem receiveCreateSession_whole {s : Init} {memory : Memory} {cuts : Cuts} {m later : Bytes}
    (hm : messageFormat.WellFormed m) (hgot : recvOnce 24 cuts.session s.incoming = (m, later)) :
    s.receiveCreateSession env memory cuts = { s with incoming := later }.exec env fun g =>
      keep g (sendCreateSessionResponse PORT_HVS_BSD (sequenceNumber m)) := by
  have hhdr : headerSize ≤ m.length := hm.1
  have hseq : sequenceNumber (m ++ memory.createSession.drop m.length) = sequenceNumber m :=
    leAt_append_of_le hhdr _
  unfold receiveCreateSession
  simp only [hgot, if_neg hm.ne_nil, hseq]

end Init

/-! ## Cuts of the stream -/

/-- The `recv` for `CreateSession` returns this message. -/
def SessionExact (cuts : Cuts) (m later : Bytes) : Prop :=
  min 24 (min cuts.session (m ++ later).length) = m.length

instance (cuts : Cuts) (m later : Bytes) : Decidable (SessionExact cuts m later) :=
  inferInstanceAs (Decidable (_ = _))

theorem recvOnce_of_sessionExact {cuts : Cuts} {m later : Bytes} (h : SessionExact cuts m later) :
    recvOnce 24 cuts.session (m ++ later) = (m, later) := by
  unfold SessionExact at h
  unfold recvOnce
  by_cases hall : min 24 cuts.session ≤ (m ++ later).length
  · have hk : min 24 cuts.session = m.length := by omega
    rw [hk, List.take_left, List.drop_left]
  · -- everything is returned, and nothing follows the message
    rw [List.length_append] at h hall
    have hnil : later = [] := List.length_eq_zero_iff.mp (by omega)
    subst hnil
    rw [List.length_nil, Nat.add_zero] at hall
    rw [List.append_nil, List.take_of_length_le (by omega), List.drop_of_length_le (by omega)]

/-- The handshake on messages: the process handles `m₁` and answers `m₂`, and the event loop starts
with `later`. -/
def wholeHandshake (env : InitEnvironment) (m₁ m₂ later : Bytes) (s : Init) : Init :=
  let s := { s with incoming := later }.exec env (handleInitialize · m₁)
  let s := s.exec env fun g =>
    keep g (sendCreateSessionResponse PORT_HVS_BSD (sequenceNumber m₂))
  s.exec env Init.enterLoop

/-- Two handshakes have the same effect on the process, leave the stream at the same place and send
the same messages. -/
structure SameHandshake (s s' : Init) : Prop where
  globals : s.globals = s'.globals
  incoming : s.incoming = s'.incoming
  sent : sent s.trace = sent s'.trace

theorem sent_receiveCreateSession (env : InitEnvironment) (memory : Memory) (cuts : Cuts) (s : Init) :
    (sent (s.receiveCreateSession env memory cuts).trace).length ≤ (sent s.trace).length + 1 := by
  obtain ⟨rest, h⟩ | ⟨rest, seq, h⟩ := Init.receiveCreateSession_cases env memory cuts s
  · rw [h]
    exact Nat.le_succ _
  · obtain ⟨r, hr, -⟩ := Init.sent_exec_one env (s := { s with incoming := rest })
      (p := fun g => keep g (sendCreateSessionResponse PORT_HVS_BSD seq)) (R := fun _ => True)
      (Program.Shows.before_hidden (Program.shows_perform fun _ => ⟨_, rfl, trivial⟩) fun _ =>
        silent_pure _)
    rw [h, hr, List.length_append, List.length_singleton]

theorem length_sent_wholeHandshake (env : InitEnvironment) (m₁ m₂ later : Bytes) (s : Init) :
    (sent (wholeHandshake env m₁ m₂ later s).trace).length = (sent s.trace).length + 3 := by
  let s₁ : Init := { s with incoming := later }.exec env (handleInitialize · m₁)
  let s₂ : Init := s₁.exec env fun g =>
    keep g (sendCreateSessionResponse PORT_HVS_BSD (sequenceNumber m₂))
  obtain ⟨r₁, h₁, -⟩ := Init.sent_exec_one env (s := { s with incoming := later })
    (p := (handleInitialize · m₁)) (answers_handleInitialize s.globals m₁)
  obtain ⟨r₂, h₂, -⟩ := Init.sent_exec_one env (s := s₁)
    (p := fun g => keep g (sendCreateSessionResponse PORT_HVS_BSD (sequenceNumber m₂)))
    (sendsNumbered_createSession s₁.globals _ (sequenceNumber_lt m₂))
  obtain ⟨r₃, h₃, -⟩ := Init.sent_exec_one env (s := s₂) (p := Init.enterLoop)
    (sendsNumbered_enterLoop s₂.globals)
  change (sent (s₂.exec env Init.enterLoop).trace).length = _
  rw [h₃, h₂, h₁]
  simp only [List.length_append, List.length_singleton]

/-- For messages of any sizes and every cut of the stream: the handshake is the one on the messages
if and only if both `recv` calls for `Initialize` are complete, unless its body is empty, and the
one for `CreateSession` returns this message. -/
theorem handshake_agrees_iff (env : InitEnvironment) (memory : Memory) (cuts : Cuts) {s : Init}
    {m₁ m₂ later : Bytes} (hm₁ : messageFormat.WellFormed m₁) (hm₂ : messageFormat.WellFormed m₂)
    (hin : s.incoming = m₁ ++ (m₂ ++ later)) :
    SameHandshake (s.handshake env memory cuts) (wholeHandshake env m₁ m₂ later s) ↔
      Init.InitializeWhole cuts m₁ ∧ SessionExact cuts m₂ later := by
  constructor
  · intro hsame
    by_cases hwhole : Init.InitializeWhole cuts m₁
    · refine ⟨hwhole, ?_⟩
      have hincoming : (recvOnce 24 cuts.session (m₂ ++ later)).2 = later := by
        have heq := hsame.incoming
        unfold Init.handshake Init.receiveCreateSession at heq
        rw [Init.receiveInitialize_whole env hm₁ hin hwhole] at heq
        dsimp only at heq
        split at heq
        · exact heq
        · exact heq
      have hhdr : headerSize ≤ m₂.length := hm₂.1
      have hlength := congrArg List.length hincoming
      simp only [recvOnce, List.length_drop, List.length_append] at hlength
      unfold SessionExact
      rw [List.length_append]
      simp only [headerSize] at hhdr
      omega
    · -- `InitializeResponse` is missing
      obtain ⟨left, -, hcut⟩ := Init.receiveInitialize_cut env hm₁ hin hwhole
      obtain ⟨r, hr, -⟩ := Init.sent_exec_one env
        (s := (s.receiveInitialize env cuts).receiveCreateSession env memory cuts)
        (p := Init.enterLoop) (sendsNumbered_enterLoop _)
      have hsession := sent_receiveCreateSession env memory cuts (s.receiveInitialize env cuts)
      have hlength := congrArg List.length hsame.sent
      rw [length_sent_wholeHandshake] at hlength
      unfold Init.handshake at hlength
      rw [hr, List.length_append, List.length_singleton] at hlength
      rw [hcut] at hsession hlength
      dsimp only at hsession
      omega
  · rintro ⟨hwhole, hexact⟩
    have heq : s.handshake env memory cuts = wholeHandshake env m₁ m₂ later s := by
      unfold Init.handshake
      rw [Init.receiveInitialize_whole env hm₁ hin hwhole,
        Init.receiveCreateSession_whole env hm₂ (recvOnce_of_sessionExact hexact)]
      rfl
    rw [heq]
    exact ⟨rfl, rfl, rfl⟩

/-- The short run of `runWith` has the cuts at the ends of the messages. -/
theorem handshake_agrees_iff_short :
    SameHandshake
      (Init.handshake plainEnvironment zeroMemory ⟨12, 41, 24⟩
        { incoming := initializeWith 12 ++ (createSessionMessage ++ terminateMessage) })
      (wholeHandshake plainEnvironment (initializeWith 12) createSessionMessage terminateMessage
        { incoming := initializeWith 12 ++ (createSessionMessage ++ terminateMessage) }) :=
  (handshake_agrees_iff plainEnvironment zeroMemory ⟨12, 41, 24⟩ (by decide) (by decide) rfl).mpr
    (by decide)

/-- The body of `Initialize` arrives in two pieces: there is no `InitializeResponse`. -/
theorem handshake_cut_differs :
    ¬ SameHandshake
      (Init.handshake plainEnvironment zeroMemory ⟨12, 20, 24⟩
        { incoming := initializeWith 12 ++ (createSessionMessage ++ terminateMessage) })
      (wholeHandshake plainEnvironment (initializeWith 12) createSessionMessage terminateMessage
        { incoming := initializeWith 12 ++ (createSessionMessage ++ terminateMessage) }) := by
  intro h
  have hsent := congrArg (List.map messageType) h.sent
  revert hsent
  decide

/-! ## Sequence numbers -/

/-- The sequence numbers are 1, 2, 3 and so on, which is what the channel of the host expects of the
messages that it receives. -/
def InSequence (out : List Bytes) : Prop := out.map sequenceNumber = List.range' 1 out.length

theorem not_inSequence {earlier later : List Bytes} {m : Bytes} (hne : earlier ≠ [])
    (hm : sequenceNumber m = 1) : ¬ InSequence (earlier ++ m :: later) := by
  intro h
  have hpos := List.length_pos_iff.mpr hne
  have hget := congrArg (·[earlier.length]?) h
  simp only [List.getElem?_map, List.getElem?_append_right (Nat.le_refl _), Nat.sub_self,
    List.getElem?_cons_zero, Option.map_some, hm] at hget
  rw [List.getElem?_range' (by simp)] at hget
  have hnumber := Option.some.inj hget
  omega

/-- If the host has sent a message and `recv` returns some of the bytes that are there, a message
has been sent before `OobeResult`. -/
theorem sent_handshake (env : InitEnvironment) (memory : Memory) {cuts : Cuts} {s : Init}
    {m rest : Bytes} (hm : messageFormat.WellFormed m) (hin : s.incoming = m ++ rest)
    (hrecv : 1 ≤ cuts.session) : ∃ earlier oobe, earlier ≠ [] ∧ sequenceNumber oobe = 1 ∧
      sent (s.handshake env memory cuts).trace = sent s.trace ++ earlier ++ [oobe] := by
  obtain ⟨earlier, hne, hearlier⟩ : ∃ earlier, earlier ≠ [] ∧
      sent ((s.receiveInitialize env cuts).receiveCreateSession env memory cuts).trace =
        sent s.trace ++ earlier := by
    by_cases hwhole : Init.InitializeWhole cuts m
    · obtain ⟨r, hr, -⟩ := Init.sent_exec_one env (s := { s with incoming := rest })
        (p := (handleInitialize · m)) (answers_handleInitialize s.globals m)
      rw [← Init.receiveInitialize_whole env hm hin hwhole] at hr
      obtain ⟨left, h⟩ | ⟨left, seq, h⟩ :=
        Init.receiveCreateSession_cases env memory cuts (s.receiveInitialize env cuts)
      · exact ⟨[r], List.cons_ne_nil _ _, by rw [h, hr]⟩
      · obtain ⟨out, hout, -⟩ := Init.sent_exec env
          (s := { s.receiveInitialize env cuts with incoming := left })
          (p := fun g => keep g (sendCreateSessionResponse PORT_HVS_BSD seq))
          (R := fun _ => True) (Program.ensures_true _)
        exact ⟨[r] ++ out, List.cons_ne_nil _ _, by rw [h, hout, hr, List.append_assoc]⟩
    · obtain ⟨left, hleft, hcut⟩ := Init.receiveInitialize_cut env hm hin hwhole
      have hgot : (recvOnce 24 cuts.session left).1 ≠ [] := by
        simp only [recvOnce, ne_eq, List.take_eq_nil_iff, hleft, or_false]
        omega
      obtain ⟨r, hr, -⟩ := Init.sent_exec_one env
        (s := { s with incoming := (recvOnce 24 cuts.session left).2 })
        (p := fun g => keep g (sendCreateSessionResponse PORT_HVS_BSD (sequenceNumber
          ((recvOnce 24 cuts.session left).1 ++
            memory.createSession.drop (recvOnce 24 cuts.session left).1.length))))
        (sendsNumbered_createSession s.globals _ (sequenceNumber_lt _))
      refine ⟨[r], List.cons_ne_nil _ _, ?_⟩
      rw [hcut]
      unfold Init.receiveCreateSession
      dsimp only
      rw [if_neg hgot]
      exact hr
  obtain ⟨oobe, hoobe, hseq⟩ := Init.sent_exec_one env
    (s := (s.receiveInitialize env cuts).receiveCreateSession env memory cuts)
    (p := Init.enterLoop) (sendsNumbered_enterLoop _)
  exact ⟨earlier, oobe, hne, hseq, by rw [Init.handshake, hoobe, hearlier]⟩

/-- The event loop and the end of `main` only add messages. -/
theorem sent_prefix (env : InitEnvironment) (s : Init) (ws : List Wakeup) :
    sent s.trace <+: sent (Init.stateOf (Init.finish env (s.eventLoop env ws))).trace := by
  have hexec : ∀ (s' : Init) (p : Globals → InitProgram Globals), sent s.trace <+: sent s'.trace →
      sent s.trace <+: sent (s'.exec env p).trace := fun s' p h =>
    h.trans ((Program.run_extends _ env _).filterMap _)
  have hinv : LoopInvariant env (fun s' => sent s.trace <+: sent s'.trace)
      fun s' => sent s.trace <+: sent s'.trace :=
    ⟨fun _ _ h => h, fun s' h => hexec s' _ h, fun s' _ _ h => hexec s' _ h,
      fun s' _ _ h => hexec s' _ h⟩
  have hloop := hinv.eventLoop (s := s) List.prefix_rfl ws
  generalize s.eventLoop env ws = out at hloop
  match out with
  | .inl s' => exact hloop
  | .inr (.left s') => exact hexec s' Init.leaveLoop hloop
  | .inr (.exited s') => exact hloop

/-- Only `CreateInstanceResult` is sent before the handshake. -/
theorem shows_boot (memory : Memory) : (boot memory).Shows initMessage fun booted out =>
    booted.2.isSome → ∃ r, out = [r] ∧ messageType r = LxMiniInitMessageCreateInstanceResult := by
  have hnone : Program.Shows initMessage (pure none : InitProgram (Option Bool)) fun connected out =>
      connected.isSome → ∃ r, out = [r] ∧ messageType r = LxMiniInitMessageCreateInstanceResult :=
    Program.shows_pure fun h => by cases h
  have hconnect : (connectChannels memory).Shows initMessage fun connected out =>
      connected.isSome → ∃ r, out = [r] ∧ messageType r = LxMiniInitMessageCreateInstanceResult := by
    refine Program.Shows.after_hidden (silent_perform (by simp [Op.subsystem])) fun _ =>
      Program.Shows.ite (fun _ => ?_) fun _ => hnone
    refine Program.Shows.after_hidden (silent_perform (by simp [Op.subsystem])) fun _ =>
      Program.Shows.ite (fun _ => ?_) fun _ => hnone
    refine Program.Shows.after_hidden (silent_perform (by simp [Op.subsystem])) fun notifyOpen => ?_
    refine Program.Shows.after_hidden (silent_perform (by simp [Op.subsystem])) fun _ =>
      Program.Shows.ite (fun _ => ?_) fun _ => hnone
    refine Program.Shows.after_hidden (silent_perform (by simp [Op.subsystem])) fun _ =>
      Program.Shows.ite (fun _ => ?_) fun _ => hnone
    exact fun _ _ => ⟨_, rfl, messageType_header_append (by decide) _ _ _⟩
  refine Program.Shows.after_hidden
    ((uses_gnsConfigureTestPaths _).silent (by simp)) fun g => ?_
  refine Program.Shows.after_hidden
    ((uses_initializeFilesystems _).silent (by simp)) fun mountedFs => ?_
  refine hconnect.bind fun connected out h => Program.shows_pure fun hsome => ?_
  rw [List.append_nil]
  exact h hsome

/-- In no run do the messages after `CreateInstanceResult` have the numbers 1, 2, 3 and so on:
whatever the host sends, and wherever the stream is cut. -/
theorem oobe_out_of_sequence (env : InitEnvironment) (memory : Memory) {cuts : Cuts} {m : Bytes}
    (rest : Bytes) (ws : List Wakeup) {out : Init ⊕ Ended} (hm : messageFormat.WellFormed m)
    (hrecv : 1 ≤ cuts.session) (hout : main env memory cuts (m ++ rest) ws = some out) :
    ∃ r replies, sent (Init.stateOf out).trace = r :: replies ∧
      messageType r = LxMiniInitMessageCreateInstanceResult ∧ ¬ InSequence replies := by
  obtain ⟨u, hu, hboot⟩ := Program.Shows.run (shows_boot memory) env []
  unfold main at hout
  generalize (boot memory).run env [] = booted at *
  obtain ⟨⟨g, connected⟩, t⟩ := booted
  cases connected with
  | none => cases hout
  | some notifyOpen =>
    obtain rfl := Option.some.inj hout
    obtain ⟨r, hr, htype⟩ := hboot rfl
    obtain ⟨earlier, oobe, hne, hseq, hsent⟩ := @sent_handshake env memory cuts
      { globals := g, notifyOpen, incoming := m ++ rest, trace := t } m rest hm rfl hrecv
    obtain ⟨later, hlater⟩ := sent_prefix env
      (Init.handshake env memory cuts
        { globals := g, notifyOpen, incoming := m ++ rest, trace := t }) ws
    have hstart : sent t = [r] := by
      rw [show t = [] ++ u from hu]
      exact hr
    refine ⟨r, earlier ++ oobe :: later, ?_, htype, not_inSequence hne hseq⟩
    rw [← hlater, hsent]
    change sent t ++ earlier ++ [oobe] ++ later = _
    rw [hstart]
    simp only [List.append_assoc, List.cons_append, List.nil_append]

/-- The short run: `OobeResult` follows two other messages. -/
theorem oobe_out_of_sequence_short : ∃ out r replies,
    main plainEnvironment zeroMemory ⟨12, 41, 24⟩
      (initializeWith 12 ++ (createSessionMessage ++ terminateMessage)) [.ready false true true] =
        some out ∧
    sent (Init.stateOf out).trace = r :: replies ∧
    messageType r = LxMiniInitMessageCreateInstanceResult ∧ ¬ InSequence replies := by
  obtain ⟨out, hout⟩ : ∃ out, main plainEnvironment zeroMemory ⟨12, 41, 24⟩
      (initializeWith 12 ++ (createSessionMessage ++ terminateMessage)) [.ready false true true] =
        some out := Option.isSome_iff_exists.mp (by decide)
  obtain ⟨r, replies, h⟩ := oobe_out_of_sequence plainEnvironment zeroMemory
    (createSessionMessage ++ terminateMessage) [.ready false true true] (by decide) (by decide) hout
  exact ⟨out, r, replies, hout, h⟩

/-- `Initialize` has number 1 and `CreateSession` number 2; the messages have 1, 2 and 1, and the
reply to `TerminateInstance` 3. -/
theorem replies_numbered_1213 : ∃ s, runWith 12 = some s ∧
    (sent s.trace).tail.map sequenceNumber = [1, 2, 1, 3] ∧ ¬ InSequence (sent s.trace).tail := by
  obtain ⟨s, hs⟩ : ∃ s, runWith 12 = some s := Option.isSome_iff_exists.mp (by decide)
  have hnumbers : ∀ s, runWith 12 = some s →
      (sent s.trace).tail.map sequenceNumber = [1, 2, 1, 3] := by decide
  refine ⟨s, hs, hnumbers s hs, fun hseq => ?_⟩
  rw [InSequence, ← List.length_map (f := sequenceNumber), hnumbers s hs] at hseq
  revert hseq
  decide

end WslFreeBSD.Hvinit
