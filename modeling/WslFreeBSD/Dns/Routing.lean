import WslFreeBSD.Dns.Steps

/-!
# Responses reach the client that asked

The identifiers of queries and connections come from two counters; as long as these have not
wrapped around, an identifier names one query or one connection of the whole history. `UdpRouted`
and `TcpRouted` say what is behind a slot in use: since the query in it was forwarded, under the
identifier and for the address in the slot, nothing has happened to the slot; since the connection
in it was accepted its descriptor has not been closed. Every step keeps both, hence every run does.

`dns_responses_routed` reads off the history of a run to whom responses were sent.
-/

namespace WslFreeBSD.Dns

open Lib
open Bridge (RecvResult)

/-! ## Identifiers in the history -/

def Event.queryId : Event → Option UInt32
  | .udpForward _ id _ _ _ _ => some id
  | _ => none

def Event.connectionId : Event → Option UInt32
  | .tcpAccept _ id _ => some id
  | _ => none

def Event.answeredId : Event → Option UInt32
  | .udpReply _ id _ _ => some id
  | _ => none

/-- The slot of the UDP table that an event is about. -/
def Event.udpSlot : Event → Option (Fin 64)
  | .udpForward i _ _ _ _ _ | .udpReply i _ _ _ | .udpFree i => some i
  | _ => none

def queryIds (l : List Event) : List UInt32 := l.filterMap Event.queryId

def connectionIds (l : List Event) : List UInt32 := l.filterMap Event.connectionId

@[simp] theorem queryIds_append (l l' : List Event) : queryIds (l ++ l') = queryIds l ++ queryIds l' :=
  List.filterMap_append

@[simp] theorem connectionIds_append (l l' : List Event) :
    connectionIds (l ++ l') = connectionIds l ++ connectionIds l' :=
  List.filterMap_append

def Bounded (l : List Event) : Prop :=
  (queryIds l).length < 2 ^ 32 - 1 ∧ (connectionIds l).length < 2 ^ 32 - 1

theorem Bounded.of_append {l l' : List Event} (h : Bounded (l ++ l')) : Bounded l := by
  obtain ⟨hq, hc⟩ := h
  rw [queryIds_append, List.length_append] at hq
  rw [connectionIds_append, List.length_append] at hc
  exact ⟨by omega, by omega⟩

/-! ## What a step does to the UDP table -/

def Event.isUdp : Event → Bool
  | .udpForward _ _ _ _ _ _ | .udpRefused _ | .udpReply _ _ _ _ | .udpFree _ | .expire _ => true
  | _ => false

theorem Event.udpSlot_of_not_isUdp {e : Event} (h : e.isUdp = false) :
    e.udpSlot = none ∧ e.queryId = none ∧ e.answeredId = none := by
  cases e <;> first | exact ⟨rfl, rfl, rfl⟩ | cases h

/-- Either the UDP table is left alone or it is one of the operations on it. -/
inductive UdpEffect (w w' : World) : Prop where
  | other (l : List Event) (hlog : w'.log = w.log ++ l) (hl : ∀ e ∈ l, e.isUdp = false)
      (hmap : w'.tunnel.udpMap = w.tunnel.udpMap) (hnext : w'.tunnel.nextUdpId = w.tunnel.nextUdpId)
      (hclock : w'.clock = w.clock)
  | forward {i : Fin 64} {client : SockAddr} {len : Nat} {payload : Bytes} {delay : Nat}
      (hfree : firstFree DnsUdpEntry.used w.tunnel.udpMap = some i)
      (heq : w' = (w.allocUdp i client len delay).record
        (.udpForward i (w.tunnel.nextUdpId + 1) client payload (w.clock + delay) true))
  | fail {i : Fin 64} {client : SockAddr} {len : Nat} {payload : Bytes} {delay : Nat}
      (hfree : firstFree DnsUdpEntry.used w.tunnel.udpMap = some i)
      (heq : w' = dnsUdpFree ((w.allocUdp i client len delay).record
        (.udpForward i (w.tunnel.nextUdpId + 1) client payload (w.clock + delay) false))
        (w.tunnel.nextUdpId + 1))
  | refuse {delay : Nat} (hfull : firstFree DnsUdpEntry.used w.tunnel.udpMap = none)
      (heq : w' = { w with clock := w.clock + delay }.record (.udpRefused (w.clock + delay)))
  | reply {i : Fin 64} {id : UInt32} {dns : Bytes} (hlive : dnsUdpLookup w.tunnel id = some i)
      (heq : w' = dnsUdpFree (w.record (.udpReply i id (w.tunnel.udpMap i).client dns)) id)
  | expire {delay : Nat}
      (heq : w' = { w with tunnel := w.tunnel.expire (w.clock + delay), clock := w.clock + delay }.record
        (.expire (w.clock + delay)))

theorem dnsTcpClose_log (w : World) (i : Fin 32) :
    ∃ l, (dnsTcpClose w i).log = w.log ++ l ∧ (l = [] ∨ l = [.close (w.conn i).fd]) := by
  unfold dnsTcpClose
  dsimp only
  rw [World.log_setConn]
  split
  · exact ⟨[.close (w.conn i).fd], rfl, .inr rfl⟩
  · exact ⟨[], by simp, .inl rfl⟩

theorem dnsTcpClose_udp (w : World) (i : Fin 32) :
    (dnsTcpClose w i).tunnel.udpMap = w.tunnel.udpMap ∧
      (dnsTcpClose w i).tunnel.nextUdpId = w.tunnel.nextUdpId ∧ (dnsTcpClose w i).clock = w.clock := by
  unfold dnsTcpClose
  dsimp only
  split <;> exact ⟨rfl, rfl, rfl⟩

theorem Step.udpEffect {w w' : World} (h : Step w w') : UdpEffect w w' := by
  cases h with
  | udpForward client len payload delay hfree => exact .forward hfree rfl
  | udpFail client len payload delay hfree => exact .fail hfree rfl
  | udpRefuse delay hfull => exact .refuse hfull rfl
  | udpReply id dns hlive => exact .reply hlive rfl
  | expire delay => exact .expire rfl
  | tcpAccept fd hfree hfd => exact .other [_] rfl (by simp [Event.isUdp]) rfl rfl rfl
  | tcpClose i hsafe =>
    obtain ⟨l, hlog, hl⟩ := dnsTcpClose_log w i
    obtain ⟨hmap, hnext, hclock⟩ := dnsTcpClose_udp w i
    refine .other l hlog ?_ hmap hnext hclock
    rcases hl with rfl | rfl <;> simp [Event.isUdp]
  | tcpBuffer i readBuf haveLength expectLen => exact .other [] (by simp) (by simp) rfl rfl rfl
  | data e he =>
    refine .other [e] rfl ?_ rfl rfl rfl
    intro a ha
    rw [List.mem_singleton.mp ha]
    cases e <;> first | rfl | cases he
  | tcpReply id framed sent hlive => exact .other [_] rfl (by simp [Event.isUdp]) rfl rfl rfl
  | stop => exact .other [] (by simp) (by simp) rfl rfl rfl

/-! ## The UDP table -/

/-- A query for `client` in slot `i` was forwarded under `id`. -/
def ForwardedAs (i : Fin 64) (id : UInt32) (client : SockAddr) (e : Event) : Prop :=
  ∃ payload time, e = .udpForward i id client payload time true

/-- Replies are for the query that is in the slot, and for a query not answered before. -/
def ReplyAllowed (p : List Event) (e : Event) : Prop :=
  ∀ i id client dns, e = .udpReply i id client dns →
    Since (ForwardedAs i id client) (·.udpSlot = some i) p ∧ ∀ b ∈ p, b.answeredId ≠ some id

structure UdpRouted (w : World) : Prop where
  numbered : Numbered (queryIds w.log) w.tunnel.nextUdpId
  pending : ∀ i, (w.tunnel.udpMap i).used = true →
    Since (ForwardedAs i (w.tunnel.udpMap i).id (w.tunnel.udpMap i).client) (·.udpSlot = some i) w.log
  unanswered : ∀ i, (w.tunnel.udpMap i).used = true →
    ∀ e ∈ w.log, e.answeredId ≠ some (w.tunnel.udpMap i).id
  replied : Preceded ReplyAllowed w.log

theorem replyAllowed_of_answeredId {p : List Event} {e : Event} (h : e.answeredId = none) :
    ReplyAllowed p e := by
  intro i id client dns he
  rw [he] at h
  cases h

theorem ForwardedAs.queryId {i : Fin 64} {id : UInt32} {client : SockAddr} {e : Event}
    (h : ForwardedAs i id client e) : e.queryId = some id := by
  obtain ⟨payload, time, rfl⟩ := h
  rfl

theorem UdpRouted.id_mem {w : World} (h : UdpRouted w) {i : Fin 64}
    (hi : (w.tunnel.udpMap i).used = true) : (w.tunnel.udpMap i).id ∈ queryIds w.log := by
  obtain ⟨e, he, hf⟩ := (h.pending i hi).exists_mem
  exact List.mem_filterMap.mpr ⟨e, he, hf.queryId⟩

theorem UdpRouted.answered_mem {w : World} (h : UdpRouted w) {e : Event} (he : e ∈ w.log) {id : UInt32}
    (hid : e.answeredId = some id) : id ∈ queryIds w.log := by
  obtain ⟨p, q, hpq⟩ := List.append_of_mem he
  cases e with
  | udpReply i id' client dns =>
    obtain rfl := Option.some.inj hid
    obtain ⟨a, ha, hfa⟩ := (h.replied p _ q hpq i id' client dns rfl).1.exists_mem
    exact List.mem_filterMap.mpr ⟨a, by rw [hpq]; simp [ha], hfa.queryId⟩
  | _ => cases hid

theorem UdpRouted.id_inj {w : World} (h : UdpRouted w) (hb : (queryIds w.log).length < 2 ^ 32)
    {i j : Fin 64} (hi : (w.tunnel.udpMap i).used = true) (hj : (w.tunnel.udpMap j).used = true)
    (hid : (w.tunnel.udpMap i).id = (w.tunnel.udpMap j).id) : i = j := by
  obtain ⟨a, ha, hfa⟩ := (h.pending i hi).exists_mem
  obtain ⟨b, hb', hfb⟩ := (h.pending j hj).exists_mem
  have hab : a = b :=
    eq_of_filterMap_nodup (h.numbered.nodup hb) ha hb' hfa.queryId (hid ▸ hfb.queryId)
  obtain ⟨payload, time, rfl⟩ := hfa
  obtain ⟨payload', time', he⟩ := hfb
  rw [← hab] at he
  injection he

theorem UdpRouted.lookup_allocUdp {w : World} (h : UdpRouted w)
    (hb : (queryIds w.log).length + 1 < 2 ^ 32) (i : Fin 64) (client : SockAddr) (len delay : Nat) :
    dnsUdpLookup (w.allocUdp i client len delay).tunnel (w.tunnel.nextUdpId + 1) = some i := by
  cases hl : dnsUdpLookup (w.allocUdp i client len delay).tunnel (w.tunnel.nextUdpId + 1) with
  | none =>
    have hno := lookup_eq_none_iff.mp hl i
    simp [World.allocUdp] at hno
  | some j =>
    obtain ⟨hused, hid⟩ := lookup_spec hl
    by_cases hj : j = i
    · rw [hj]
    · simp only [World.allocUdp, Function.update_of_ne hj] at hused hid
      exact absurd (hid ▸ h.id_mem hused) (h.numbered.succ_notMem hb)

theorem dnsUdpFree_of_lookup {w : World} {id : UInt32} {i : Fin 64}
    (h : dnsUdpLookup w.tunnel id = some i) :
    dnsUdpFree w id = (w.setEntry i { w.tunnel.udpMap i with used := false }).record (.udpFree i) := by
  rw [dnsUdpFree, h]

/-- A step that gives no slot away: the slots still in use are as before and not mentioned in the
new events, and a reply among these is for a query in the table. -/
theorem UdpRouted.extend {w w' : World} (h : UdpRouted w) {l : List Event}
    (hlog : w'.log = w.log ++ l)
    (hnumbered : Numbered (queryIds w.log ++ queryIds l) w'.tunnel.nextUdpId)
    (hreply : ∀ p e q, l = p ++ e :: q → ReplyAllowed (w.log ++ p) e)
    (hmap : ∀ k, (w'.tunnel.udpMap k).used = true → w'.tunnel.udpMap k = w.tunnel.udpMap k ∧
      ∀ e ∈ l, e.udpSlot ≠ some k ∧ e.answeredId ≠ some (w.tunnel.udpMap k).id) : UdpRouted w' := by
  refine ⟨?_, ?_, ?_, ?_⟩
  · rw [hlog, queryIds_append]
    exact hnumbered
  · intro k hk
    obtain ⟨heq, hl⟩ := hmap k hk
    rw [heq] at hk ⊢
    rw [hlog]
    exact (h.pending k hk).append fun e he => (hl e he).1
  · intro k hk e he
    obtain ⟨heq, hl⟩ := hmap k hk
    rw [heq] at hk ⊢
    rw [hlog] at he
    rcases List.mem_append.mp he with he | he
    · exact h.unanswered k hk e he
    · exact (hl e he).2
  · rw [hlog]
    exact h.replied.append hreply

theorem UdpRouted.extend_quiet {w w' : World} (h : UdpRouted w) {l : List Event}
    (hlog : w'.log = w.log ++ l)
    (hl : ∀ e ∈ l, e.udpSlot = none ∧ e.queryId = none ∧ e.answeredId = none)
    (hnext : w'.tunnel.nextUdpId = w.tunnel.nextUdpId)
    (hmap : ∀ k, (w'.tunnel.udpMap k).used = true → w'.tunnel.udpMap k = w.tunnel.udpMap k) :
    UdpRouted w' := by
  refine h.extend hlog ?_ ?_ ?_
  · have hids : queryIds l = [] := List.filterMap_eq_nil_iff.mpr fun e he => (hl e he).2.1
    rw [hids, List.append_nil, hnext]
    exact h.numbered
  · intro p e q hpq
    have he : e ∈ l := by rw [hpq]; simp
    exact replyAllowed_of_answeredId (hl e he).2.2
  · intro k hk
    refine ⟨hmap k hk, fun e he => ?_⟩
    obtain ⟨hslot, -, hreply⟩ := hl e he
    rw [hslot, hreply]
    simp

theorem UdpRouted.forward {w : World} (h : UdpRouted w) (hb : (queryIds w.log).length + 1 < 2 ^ 32)
    (i : Fin 64) (client : SockAddr) (len : Nat) (payload : Bytes) (delay : Nat) :
    UdpRouted ((w.allocUdp i client len delay).record
      (.udpForward i (w.tunnel.nextUdpId + 1) client payload (w.clock + delay) true)) := by
  refine ⟨?_, ?_, ?_, ?_⟩
  · rw [World.log_record, queryIds_append]
    exact h.numbered.concat
  · intro k hk
    change (Function.update w.tunnel.udpMap i _ k).used = true at hk
    change Since (ForwardedAs k (Function.update w.tunnel.udpMap i _ k).id
      (Function.update w.tunnel.udpMap i _ k).client) _ (w.log ++ [_])
    by_cases hki : k = i
    · subst hki
      rw [Function.update_self]
      exact Since.now ⟨payload, w.clock + delay, rfl⟩
    · rw [Function.update_of_ne hki] at hk ⊢
      exact (h.pending k hk).concat fun hc => hki (Option.some.inj hc).symm
  · intro k hk e he
    change (Function.update w.tunnel.udpMap i _ k).used = true at hk
    change e.answeredId ≠ some (Function.update w.tunnel.udpMap i _ k).id
    have hold : e.answeredId ≠ none → e ∈ w.log := by
      intro hne
      rcases List.mem_append.mp he with he | he
      · exact he
      · rw [List.mem_singleton.mp he] at hne
        exact absurd rfl hne
    intro hc
    have hmem := hold (by rw [hc]; simp)
    by_cases hki : k = i
    · -- the identifier is new, so that no answer can have carried it
      subst hki
      rw [Function.update_self] at hc
      exact h.numbered.succ_notMem hb (h.answered_mem hmem hc)
    · rw [Function.update_of_ne hki] at hk hc
      exact h.unanswered k hk e hmem hc
  · exact h.replied.concat (replyAllowed_of_answeredId rfl)

theorem World.udpMap_freed {w w' : World} {i k : Fin 64} {e : Event}
    (heq : w' = (w.setEntry i { w.tunnel.udpMap i with used := false }).record e)
    (hk : (w'.tunnel.udpMap k).used = true) :
    k ≠ i ∧ w'.tunnel.udpMap k = w.tunnel.udpMap k := by
  have hmap : w'.tunnel.udpMap = Function.update w.tunnel.udpMap i
      { w.tunnel.udpMap i with used := false } := by
    rw [heq]
    rfl
  rw [hmap] at hk ⊢
  have hki : k ≠ i := by
    rintro rfl
    rw [Function.update_self] at hk
    cases hk
  exact ⟨hki, Function.update_of_ne hki _ _⟩

theorem UdpRouted.fail {w : World} (h : UdpRouted w) (hb : (queryIds w.log).length + 1 < 2 ^ 32)
    (i : Fin 64) (client : SockAddr) (len : Nat) (payload : Bytes) (delay : Nat) :
    UdpRouted (dnsUdpFree ((w.allocUdp i client len delay).record
      (.udpForward i (w.tunnel.nextUdpId + 1) client payload (w.clock + delay) false))
      (w.tunnel.nextUdpId + 1)) := by
  set e : Event := .udpForward i (w.tunnel.nextUdpId + 1) client payload (w.clock + delay) false with he
  set w₁ := (w.allocUdp i client len delay).record e with hw₁
  have hfree : dnsUdpFree w₁ (w.tunnel.nextUdpId + 1) =
      (w₁.setEntry i { w₁.tunnel.udpMap i with used := false }).record (.udpFree i) :=
    dnsUdpFree_of_lookup (h.lookup_allocUdp hb i client len delay)
  refine h.extend (l := [e, .udpFree i]) ?_ ?_ ?_ ?_
  · rw [hfree, World.log_record]
    exact List.append_assoc w.log [e] [.udpFree i]
  · rw [hfree]
    exact h.numbered.concat
  · intro p a q hpq
    refine replyAllowed_of_answeredId ?_
    have ha : a ∈ [e, Event.udpFree i] := by rw [hpq]; simp
    simp only [List.mem_cons, List.not_mem_nil, or_false] at ha
    rcases ha with rfl | rfl <;> rfl
  · intro k hk
    obtain ⟨hki, hmap⟩ := World.udpMap_freed hfree hk
    refine ⟨?_, ?_⟩
    · rw [hmap]
      exact Function.update_of_ne hki _ _
    · intro a ha
      simp only [List.mem_cons, List.not_mem_nil, or_false] at ha
      rcases ha with rfl | rfl <;>
        exact ⟨fun hc => hki (Option.some.inj hc).symm, by simp [he, Event.answeredId]⟩

theorem UdpRouted.reply {w : World} (h : UdpRouted w) (hb : (queryIds w.log).length < 2 ^ 32)
    {i : Fin 64} {id : UInt32} (hlive : dnsUdpLookup w.tunnel id = some i) (dns : Bytes) :
    UdpRouted (dnsUdpFree (w.record (.udpReply i id (w.tunnel.udpMap i).client dns)) id) := by
  set e : Event := .udpReply i id (w.tunnel.udpMap i).client dns with he
  have hfree : dnsUdpFree (w.record e) id =
      ((w.record e).setEntry i { (w.record e).tunnel.udpMap i with used := false }).record (.udpFree i) :=
    dnsUdpFree_of_lookup hlive
  obtain ⟨hused, hid⟩ := lookup_spec hlive
  have hpending := h.pending i hused
  rw [hid] at hpending
  refine h.extend (l := [e, .udpFree i]) ?_ ?_ ?_ ?_
  · rw [hfree, World.log_record]
    exact List.append_assoc w.log [e] [.udpFree i]
  · rw [hfree]
    have hnone : queryIds [e, .udpFree i] = [] := rfl
    rw [hnone, List.append_nil]
    exact h.numbered
  · intro p a q hpq
    match p, hpq with
    | [], hpq =>
      obtain ⟨rfl, -⟩ := List.cons.inj hpq
      intro j id' client dns' ha
      injection ha with hj hid' hc _
      subst hj hid' hc
      rw [List.append_nil]
      exact ⟨hpending, hid ▸ h.unanswered i hused⟩
    | [b], hpq =>
      have ha : a = .udpFree i := by simpa using (List.cons.inj (List.cons.inj hpq).2).1.symm
      rw [ha]
      exact replyAllowed_of_answeredId rfl
    | b :: c :: p, hpq => simp at hpq
  · intro k hk
    obtain ⟨hki, hmap⟩ := World.udpMap_freed hfree hk
    have hk' : (w.tunnel.udpMap k).used = true := by rwa [hmap] at hk
    have hne : (w.tunnel.udpMap k).id ≠ id := fun hc => hki (h.id_inj hb hk' hused (hc.trans hid.symm))
    refine ⟨hmap, ?_⟩
    intro a ha
    simp only [List.mem_cons, List.not_mem_nil, or_false] at ha
    rcases ha with rfl | rfl
    · exact ⟨fun hc => hki (Option.some.inj hc).symm, fun hc => hne (Option.some.inj hc).symm⟩
    · exact ⟨fun hc => hki (Option.some.inj hc).symm, by simp [Event.answeredId]⟩

theorem DnsTunnel.expire_of_used {t : DnsTunnel} {now : Nat} {k : Fin 64}
    (hk : ((t.expire now).udpMap k).used = true) :
    (t.expire now).udpMap k = t.udpMap k ∧
      ¬ ((t.udpMap k).deadlineMs ≠ 0 ∧ (t.udpMap k).deadlineMs < now) := by
  simp only [DnsTunnel.expire] at hk ⊢
  split at hk
  · cases hk
  · rename_i hc
    rw [if_neg hc]
    exact ⟨rfl, fun hd => hc ⟨hk, hd⟩⟩

theorem UdpRouted.step {w w' : World} (h : UdpRouted w) (hs : UdpEffect w w')
    (hb : (queryIds w.log).length < 2 ^ 32 - 1) : UdpRouted w' := by
  cases hs with
  | other l hlog hl hmap hnext hclock =>
    exact h.extend_quiet hlog (fun e he => Event.udpSlot_of_not_isUdp (hl e he)) hnext
      fun k _ => by rw [hmap]
  | @refuse delay hfull heq =>
    rw [heq]
    exact h.extend_quiet (l := [.udpRefused (w.clock + delay)]) rfl (by simp [Event.udpSlot,
      Event.queryId, Event.answeredId]) rfl fun _ _ => rfl
  | forward hfree heq =>
    rw [heq]
    exact h.forward (by omega) _ _ _ _ _
  | fail hfree heq =>
    rw [heq]
    exact h.fail (by omega) _ _ _ _ _
  | reply hlive heq =>
    rw [heq]
    exact h.reply (by omega) hlive _
  | @expire delay heq =>
    rw [heq]
    exact h.extend_quiet (l := [.expire (w.clock + delay)]) rfl (by simp [Event.udpSlot,
      Event.queryId, Event.answeredId]) rfl fun _ hk => (DnsTunnel.expire_of_used hk).1

/-! ## What a step does to the TCP table -/

/-- Events that have nothing to do with the TCP table. -/
def Event.offTable : Event → Bool
  | .tcpAccept _ _ _ | .close _ | .tcpReply _ _ _ _ _ => false
  | _ => true

def DnsTcpConn.route (c : DnsTcpConn) : Bool × Int × UInt32 := (c.used, c.fd, c.id)

inductive TcpEffect (w w' : World) : Prop where
  | other (l : List Event) (hlog : w'.log = w.log ++ l) (hl : ∀ e ∈ l, e.offTable = true)
      (hconns : ∀ i, (w'.conn i).route = (w.conn i).route) (hopened : w'.opened = w.opened)
      (hnext : w'.tunnel.nextTcpId = w.tunnel.nextTcpId)
  | accept {i : Fin 32} {fd : Int} (hfree : firstFree DnsTcpConn.used w.tunnel.tcpConns = some i)
      (hfd : w.CanOpen fd)
      (heq : w' = (w.allocTcp i fd).record (.tcpAccept i (w.tunnel.nextTcpId + 1) fd))
  | close {i : Fin 32} (hsafe : Safe w i) (heq : w' = dnsTcpClose w i)
  | reply {i : Fin 32} {id : UInt32} {framed : Bytes} {sent : Bool}
      (hlive : dnsTcpLookup w.tunnel id = some i)
      (heq : w' = w.record (.tcpReply i id (w.conn i).fd framed sent))

theorem dnsUdpFree_other (w : World) (id : UInt32) :
    ∃ l, (dnsUdpFree w id).log = w.log ++ l ∧ (∀ e ∈ l, e.offTable = true) ∧
      (dnsUdpFree w id).opened = w.opened ∧
      (dnsUdpFree w id).tunnel.nextTcpId = w.tunnel.nextTcpId := by
  unfold dnsUdpFree
  split
  · exact ⟨[], by simp, by simp, rfl, rfl⟩
  · exact ⟨[_], rfl, by simp [Event.offTable], rfl, rfl⟩

theorem Step.tcpEffect {w w' : World} (h : Step w w') : TcpEffect w w' := by
  cases h with
  | udpForward => exact .other [_] rfl (by simp [Event.offTable]) (fun _ => rfl) rfl rfl
  | udpFail client len payload delay hfree =>
    rename_i i
    set w₁ := (w.allocUdp i client len delay).record
      (.udpForward i (w.tunnel.nextUdpId + 1) client payload (w.clock + delay) false)
    obtain ⟨l, hlog, hl, hopened, hnext⟩ := dnsUdpFree_other w₁ (w.tunnel.nextUdpId + 1)
    refine .other (_ :: l) (hlog.trans (List.append_cons _ _ _).symm) ?_
      (fun k => by rw [conn_dnsUdpFree]; rfl) hopened hnext
    intro e he
    rcases List.mem_cons.mp he with rfl | he
    · rfl
    · exact hl e he
  | udpRefuse => exact .other [_] rfl (by simp [Event.offTable]) (fun _ => rfl) rfl rfl
  | udpReply id dns hlive =>
    rename_i i
    set w₁ := w.record (.udpReply i id (w.tunnel.udpMap i).client dns)
    obtain ⟨l, hlog, hl, hopened, hnext⟩ := dnsUdpFree_other w₁ id
    refine .other (_ :: l) (hlog.trans (List.append_cons _ _ _).symm) ?_
      (fun k => by rw [conn_dnsUdpFree]; rfl) hopened hnext
    intro e he
    rcases List.mem_cons.mp he with rfl | he
    · rfl
    · exact hl e he
  | expire => exact .other [_] rfl (by simp [Event.offTable]) (fun _ => rfl) rfl rfl
  | tcpAccept fd hfree hfd => exact .accept hfree hfd rfl
  | tcpClose i hsafe => exact .close hsafe rfl
  | tcpBuffer i readBuf haveLength expectLen =>
    refine .other [] (by simp) (by simp) (fun k => ?_) rfl rfl
    by_cases hk : k = i
    · subst hk
      rw [World.conn_setConn]
      rfl
    · rw [conn_setConn_of_ne _ _ _ hk]
  | data e he =>
    refine .other [e] rfl ?_ (fun _ => rfl) rfl rfl
    cases e <;> simp_all [Event.isData, Event.offTable]
  | tcpReply id framed sent hlive => exact .reply hlive rfl
  | stop => exact .other [] (by simp) (by simp) (fun _ => rfl) rfl rfl

/-! ## The TCP table -/

/-- A response goes to the connection that was accepted under its identifier and whose descriptor
has not been closed. -/
def TcpReplyAllowed (p : List Event) (e : Event) : Prop :=
  ∀ i id fd framed sent, e = .tcpReply i id fd framed sent →
    Since (· = .tcpAccept i id fd) (· = .close fd) p

structure TcpRouted (w : World) : Prop where
  numbered : Numbered (connectionIds w.log) w.tunnel.nextTcpId
  held : ∀ i, (w.conn i).used = true →
    Since (· = .tcpAccept i (w.conn i).id (w.conn i).fd) (· = .close (w.conn i).fd) w.log
  opened : ∀ i, (w.conn i).used = true → 0 ≤ (w.conn i).fd ∧ (w.conn i).fd ∈ w.opened
  fd_inj : ∀ i j, (w.conn i).used = true → (w.conn j).used = true →
    (w.conn i).fd = (w.conn j).fd → i = j
  replied : Preceded TcpReplyAllowed w.log

theorem tcpReplyAllowed_of_offTable {p : List Event} {e : Event} (h : e.offTable = true) :
    TcpReplyAllowed p e := by
  intro i id fd framed sent he
  rw [he] at h
  cases h

theorem connectionIds_offTable {l : List Event} (h : ∀ e ∈ l, e.offTable = true) :
    connectionIds l = [] := by
  apply List.filterMap_eq_nil_iff.mpr
  intro e he
  have := h e he
  cases e <;> first | rfl | cases this

theorem TcpRouted.id_mem {w : World} (h : TcpRouted w) {i : Fin 32} (hi : (w.conn i).used = true) :
    (w.conn i).id ∈ connectionIds w.log := by
  obtain ⟨e, he, rfl⟩ := (h.held i hi).exists_mem
  exact List.mem_filterMap.mpr ⟨_, he, rfl⟩

theorem TcpRouted.id_inj {w : World} (h : TcpRouted w) (hb : (connectionIds w.log).length < 2 ^ 32)
    {i j : Fin 32} (hi : (w.conn i).used = true) (hj : (w.conn j).used = true)
    (hid : (w.conn i).id = (w.conn j).id) : i = j := by
  obtain ⟨a, ha, rfl⟩ := (h.held i hi).exists_mem
  obtain ⟨b, hb', rfl⟩ := (h.held j hj).exists_mem
  have hab := eq_of_filterMap_nodup (h.numbered.nodup hb) ha hb' rfl (congrArg some hid.symm)
  injection hab

theorem TcpRouted.other {w w' : World} (h : TcpRouted w) {l : List Event} (hlog : w'.log = w.log ++ l)
    (hl : ∀ e ∈ l, e.offTable = true) (hconns : ∀ i, (w'.conn i).route = (w.conn i).route)
    (hopened : w'.opened = w.opened) (hnext : w'.tunnel.nextTcpId = w.tunnel.nextTcpId) :
    TcpRouted w' := by
  have hroute : ∀ i, (w'.conn i).used = (w.conn i).used ∧ (w'.conn i).fd = (w.conn i).fd ∧
      (w'.conn i).id = (w.conn i).id := by
    intro i
    have := hconns i
    simpa only [DnsTcpConn.route, Prod.mk.injEq] using this
  refine ⟨?_, ?_, ?_, ?_, ?_⟩
  · rw [hlog, connectionIds_append, connectionIds_offTable hl, List.append_nil, hnext]
    exact h.numbered
  · intro i hi
    obtain ⟨hu, hf, hid⟩ := hroute i
    rw [hu] at hi
    rw [hf, hid, hlog]
    refine (h.held i hi).append fun e he hc => ?_
    have := hl e he
    rw [hc] at this
    cases this
  · intro i hi
    obtain ⟨hu, hf, -⟩ := hroute i
    rw [hu] at hi
    rw [hf, hopened]
    exact h.opened i hi
  · intro i j hi hj hij
    rw [(hroute i).1] at hi
    rw [(hroute j).1] at hj
    rw [(hroute i).2.1, (hroute j).2.1] at hij
    exact h.fd_inj i j hi hj hij
  · rw [hlog]
    refine h.replied.append fun p e q hpq => tcpReplyAllowed_of_offTable (hl e ?_)
    rw [hpq]
    simp

theorem TcpRouted.accept {w : World} (h : TcpRouted w) {i : Fin 32} {fd : Int} (hfd : w.CanOpen fd) :
    TcpRouted ((w.allocTcp i fd).record (.tcpAccept i (w.tunnel.nextTcpId + 1) fd)) := by
  have hne : ∀ k, (w.conn k).used = true → (w.conn k).fd ≠ fd := by
    intro k hk hc
    exact hfd.2.1 (hc ▸ (h.opened k hk).2)
  refine ⟨?_, ?_, ?_, ?_, ?_⟩
  · rw [World.log_record, connectionIds_append]
    exact h.numbered.concat
  · intro k hk
    rw [World.conn_record, conn_allocTcp] at hk ⊢
    by_cases hki : k = i
    · subst hki
      rw [if_pos rfl]
      exact Since.now rfl
    · rw [if_neg hki] at hk ⊢
      exact (h.held k hk).concat (by simp)
  · intro k hk
    rw [World.conn_record, conn_allocTcp] at hk ⊢
    by_cases hki : k = i
    · rw [if_pos hki]
      exact ⟨hfd.1, List.mem_cons_self⟩
    · rw [if_neg hki] at hk ⊢
      exact ⟨(h.opened k hk).1, List.mem_cons_of_mem _ (h.opened k hk).2⟩
  · intro k j hk hj hkj
    rw [World.conn_record, conn_allocTcp] at hk hj hkj
    rw [World.conn_record, conn_allocTcp] at hkj
    by_cases hki : k = i
    · by_cases hji : j = i
      · rw [hki, hji]
      · rw [if_neg hji] at hj hkj
        rw [if_pos hki] at hkj
        exact absurd hkj.symm (hne j hj)
    · rw [if_neg hki] at hk hkj
      by_cases hji : j = i
      · rw [if_pos hji] at hkj
        exact absurd hkj (hne k hk)
      · rw [if_neg hji] at hj hkj
        exact h.fd_inj k j hk hj hkj
  · refine h.replied.concat ?_
    intro j id fd' framed sent he
    cases he

theorem TcpRouted.used_dnsTcpClose {w : World} (h : TcpRouted w) {i : Fin 32} (hsafe : Safe w i)
    {k : Fin 32} (hk : ((dnsTcpClose w i).conn k).used = true) :
    (w.conn k).used = true ∧ (dnsTcpClose w i).conn k = w.conn k ∧ (w.conn k).fd ≠ (w.conn i).fd := by
  rw [conn_dnsTcpClose] at hk
  by_cases hki : k = i
  · rw [if_pos hki] at hk
    cases hk
  · rw [if_neg hki] at hk
    refine ⟨hk, by rw [conn_dnsTcpClose, if_neg hki], ?_⟩
    intro hc
    rcases hsafe with hused | hneg
    · exact hki (h.fd_inj k i hk hused hc)
    · have := (h.opened k hk).1
      omega

theorem nextTcpId_dnsTcpClose (w : World) (i : Fin 32) :
    (dnsTcpClose w i).tunnel.nextTcpId = w.tunnel.nextTcpId := by
  unfold dnsTcpClose
  dsimp only
  split <;> rfl

theorem mem_opened_dnsTcpClose {w : World} {i : Fin 32} {fd : Int} (hfd : fd ∈ w.opened)
    (hne : fd ≠ (w.conn i).fd) : fd ∈ (dnsTcpClose w i).opened := by
  unfold dnsTcpClose
  dsimp only
  change fd ∈ (if (w.conn i).fd ≥ 0 then w.closeFd (w.conn i).fd else w).opened
  split
  · exact List.mem_filter.mpr ⟨hfd, by simpa using hne⟩
  · exact hfd

theorem TcpRouted.close {w : World} (h : TcpRouted w) {i : Fin 32} (hsafe : Safe w i) :
    TcpRouted (dnsTcpClose w i) := by
  obtain ⟨l, hlog, hl⟩ := dnsTcpClose_log w i
  refine ⟨?_, ?_, ?_, ?_, ?_⟩
  · have hids : connectionIds l = [] := by rcases hl with rfl | rfl <;> rfl
    rw [hlog, connectionIds_append, hids, List.append_nil, nextTcpId_dnsTcpClose]
    exact h.numbered
  · intro k hk
    obtain ⟨hused, hconn, hfd⟩ := h.used_dnsTcpClose hsafe hk
    rw [hconn, hlog]
    refine (h.held k hused).append fun e he hc => ?_
    rcases hl with rfl | rfl
    · cases he
    · rw [hc, List.mem_singleton] at he
      injection he with he
      exact hfd he
  · intro k hk
    obtain ⟨hused, hconn, hfd⟩ := h.used_dnsTcpClose hsafe hk
    rw [hconn]
    exact ⟨(h.opened k hused).1, mem_opened_dnsTcpClose (h.opened k hused).2 hfd⟩
  · intro k j hk hj hkj
    obtain ⟨huk, hck, -⟩ := h.used_dnsTcpClose hsafe hk
    obtain ⟨huj, hcj, -⟩ := h.used_dnsTcpClose hsafe hj
    rw [hck, hcj] at hkj
    exact h.fd_inj k j huk huj hkj
  · rw [hlog]
    refine h.replied.append fun p e q hpq => ?_
    have he : e ∈ l := by rw [hpq]; simp
    intro j id fd framed sent hc
    rcases hl with rfl | rfl
    · cases he
    · rw [List.mem_singleton.mp he] at hc
      cases hc

theorem TcpRouted.reply {w : World} (h : TcpRouted w) {i : Fin 32} {id : UInt32}
    (hlive : dnsTcpLookup w.tunnel id = some i) (framed : Bytes) (sent : Bool) :
    TcpRouted (w.record (.tcpReply i id (w.conn i).fd framed sent)) := by
  obtain ⟨hused, hid⟩ := lookup_spec hlive
  refine ⟨?_, fun k hk => (h.held k hk).concat (by simp), h.opened, h.fd_inj, ?_⟩
  · rw [World.log_record, connectionIds_append]
    have hnone : connectionIds [.tcpReply i id (w.conn i).fd framed sent] = [] := rfl
    rw [hnone, List.append_nil]
    exact h.numbered
  · refine h.replied.concat ?_
    intro j id' fd framed' sent' he
    injection he with hj hid' hfd _ _
    subst hj hid' hfd
    have := h.held i hused
    rwa [show (w.conn i).id = id from hid] at this

theorem TcpRouted.step {w w' : World} (h : TcpRouted w) (hs : TcpEffect w w') : TcpRouted w' := by
  cases hs with
  | other l hlog hl hconns hopened hnext => exact h.other hlog hl hconns hopened hnext
  | accept hfree hfd heq =>
    rw [heq]
    exact h.accept hfd
  | close hsafe heq =>
    rw [heq]
    exact h.close hsafe
  | reply hlive heq =>
    rw [heq]
    exact h.reply hlive _ _

/-! ## Runs -/

/-- The state that a run of the loop has reached, inside the loop or after it. -/
def dnsTunnelRun (w : World) (answers : List PollAnswer) : World :=
  (runLoop dnsTunnelPass w answers).elim id id

theorem dnsTunnelRun_steps (w : World) (answers : List PollAnswer) :
    Steps w (dnsTunnelRun w answers) := by
  have h := runLoop_steps w answers
  unfold dnsTunnelRun
  cases hr : runLoop dnsTunnelPass w answers with
  | inl w' => rwa [hr] at h
  | inr w' => rwa [hr] at h

theorem Step.log_append {w w' : World} (h : Step w w') : ∃ l, w'.log = w.log ++ l := by
  cases h.tcpEffect with
  | other l hlog => exact ⟨l, hlog⟩
  | accept hfree hfd heq => exact ⟨_, by rw [heq]; rfl⟩
  | @close i hsafe heq =>
    obtain ⟨l, hl, -⟩ := dnsTcpClose_log w i
    exact ⟨l, by rw [heq, hl]⟩
  | reply hlive heq => exact ⟨_, by rw [heq]; rfl⟩

theorem routed_of_steps {w w' : World} (h : Steps w w') (hu : UdpRouted w) (ht : TcpRouted w)
    (hb : Bounded w'.log) : UdpRouted w' ∧ TcpRouted w' := by
  refine Steps.inv (I := fun w => Bounded w.log → UdpRouted w ∧ TcpRouted w) ?_ h
    (fun _ => ⟨hu, ht⟩) hb
  intro v v' hv hs hb'
  obtain ⟨l, hl⟩ := hs.log_append
  have hb : Bounded v.log := (hl ▸ hb').of_append
  obtain ⟨hu, ht⟩ := hv hb
  exact ⟨hu.step hs.udpEffect hb.1, ht.step hs.tcpEffect⟩

theorem udpRouted_start (udpFd tcpFd channelFd : Int) (clock : Nat) :
    UdpRouted (dnsTunnelStart udpFd tcpFd channelFd clock) := by
  refine ⟨Numbered.nil, ?_, ?_, Preceded.nil⟩ <;> intro i hi <;> cases hi

theorem tcpRouted_start (udpFd tcpFd channelFd : Int) (clock : Nat) :
    TcpRouted (dnsTunnelStart udpFd tcpFd channelFd clock) := by
  refine ⟨Numbered.nil, ?_, ?_, ?_, Preceded.nil⟩
  · intro i hi
    cases hi
  · intro i hi
    cases hi
  · intro i j hi
    cases hi

/-! ## Live identifiers -/

def Live (w : World) (r : DnsClientIdentifier) : Prop :=
  (r.protocol = IPPROTO_UDP ∧
    ∃ i, (w.tunnel.udpMap i).used = true ∧ (w.tunnel.udpMap i).id = r.dnsClientId) ∨
  (r.protocol = IPPROTO_TCP ∧ ∃ i, (w.conn i).used = true ∧ (w.conn i).id = r.dnsClientId)

theorem dnsRouteResponse_of_not_live {w : World} {r : DnsClientIdentifier} (h : ¬ Live w r) (dns : Bytes)
    (sent : Bool) : dnsRouteResponse w r dns sent = w := by
  unfold dnsRouteResponse
  split
  · rename_i hp
    have hnone : dnsUdpLookup w.tunnel r.dnsClientId = none :=
      lookup_eq_none_iff.mpr fun i hi hid => h (.inl ⟨hp, i, hi, hid⟩)
    rw [hnone]
  · split
    · rename_i hp
      have hnone : dnsTcpLookup w.tunnel r.dnsClientId = none :=
        lookup_eq_none_iff.mpr fun i hi hid => h (.inr ⟨hp, i, hi, hid⟩)
      rw [hnone]
    · rfl

/-- What holds of the tables and of the history of a run. -/
structure WellRouted (w : World) : Prop where
  udp_ids : ∀ i, (w.tunnel.udpMap i).used = true → (w.tunnel.udpMap i).id ≠ 0 ∧
    ∀ j, (w.tunnel.udpMap j).used = true → (w.tunnel.udpMap j).id = (w.tunnel.udpMap i).id → j = i
  tcp_ids : ∀ i, (w.conn i).used = true → (w.conn i).id ≠ 0 ∧
    ∀ j, (w.conn j).used = true → (w.conn j).id = (w.conn i).id → j = i
  /-- A UDP response goes to the address whose query, the only one with this identifier, was
  forwarded, and no other response went to that query before. -/
  udp_replies : ∀ p i id client dns q, w.log = p ++ .udpReply i id client dns :: q →
    (∃ payload time, .udpForward i id client payload time true ∈ p ∧
      ∀ e ∈ w.log, e.queryId = some id → e = .udpForward i id client payload time true) ∧
    ∀ e ∈ p, e.answeredId ≠ some id
  /-- A TCP response goes to the connection that was given the identifier, the only one, and whose
  descriptor has not been closed since. -/
  tcp_replies : ∀ p i id fd framed sent q, w.log = p ++ .tcpReply i id fd framed sent :: q →
    (∃ p₁ p₂, p = p₁ ++ .tcpAccept i id fd :: p₂ ∧ .close fd ∉ p₂) ∧
    ∀ e ∈ w.log, e.connectionId = some id → e = .tcpAccept i id fd
  /-- A response whose identifier is not live changes nothing and sends nothing; identifiers that
  were never given out, or whose query was answered, are not live. -/
  dead : ∀ a r dns rest, dnsChannelRecv a.headerCalls a.payloadCalls a.stream = some (r, dns, rest) →
    ¬ Live w r → dnsHandleChannelReadable w a = w
  unknown : ∀ id, id ∉ queryIds w.log → ¬ Live w ⟨IPPROTO_UDP, id⟩
  unknown_tcp : ∀ id, id ∉ connectionIds w.log → ¬ Live w ⟨IPPROTO_TCP, id⟩
  answered : ∀ id, ∀ e ∈ w.log, e.answeredId = some id → ¬ Live w ⟨IPPROTO_UDP, id⟩

theorem UdpRouted.replies {w : World} (h : UdpRouted w) (hb : (queryIds w.log).length < 2 ^ 32)
    {p : List Event} {i : Fin 64} {id : UInt32} {client : SockAddr} {dns : Bytes} {q : List Event}
    (hpq : w.log = p ++ .udpReply i id client dns :: q) :
    (∃ payload time, .udpForward i id client payload time true ∈ p ∧
      ∀ e ∈ w.log, e.queryId = some id → e = .udpForward i id client payload time true) ∧
    ∀ e ∈ p, e.answeredId ≠ some id := by
  obtain ⟨hsince, hnone⟩ := h.replied p _ q hpq i id client dns rfl
  refine ⟨?_, hnone⟩
  obtain ⟨a, ha, payload, time, rfl⟩ := hsince.exists_mem
  refine ⟨payload, time, ha, ?_⟩
  intro e he hid
  have hmem : .udpForward i id client payload time true ∈ w.log := by
    rw [hpq]
    simp [ha]
  exact eq_of_filterMap_nodup (h.numbered.nodup hb) he hmem hid rfl

theorem TcpRouted.replies {w : World} (h : TcpRouted w) (hb : (connectionIds w.log).length < 2 ^ 32)
    {p : List Event} {i : Fin 32} {id : UInt32} {fd : Int} {framed : Bytes} {sent : Bool}
    {q : List Event} (hpq : w.log = p ++ .tcpReply i id fd framed sent :: q) :
    (∃ p₁ p₂, p = p₁ ++ .tcpAccept i id fd :: p₂ ∧ .close fd ∉ p₂) ∧
    ∀ e ∈ w.log, e.connectionId = some id → e = .tcpAccept i id fd := by
  obtain ⟨p₁, a, p₂, hp, rfl, hclose⟩ := h.replied p _ q hpq i id fd framed sent rfl
  refine ⟨⟨p₁, p₂, hp, fun hc => hclose _ hc rfl⟩, ?_⟩
  intro e he hid
  have hmem : .tcpAccept i id fd ∈ w.log := by
    rw [hpq, hp]
    simp
  exact eq_of_filterMap_nodup (h.numbered.nodup hb) he hmem hid rfl

theorem not_live_udp {w : World} {id : UInt32}
    (h : ∀ i, (w.tunnel.udpMap i).used = true → (w.tunnel.udpMap i).id ≠ id) :
    ¬ Live w ⟨IPPROTO_UDP, id⟩ := by
  rintro (⟨-, i, hi, hid⟩ | ⟨hp, -⟩)
  · exact h i hi hid
  · exact absurd (show IPPROTO_UDP = IPPROTO_TCP from hp) (by decide)

theorem not_live_tcp {w : World} {id : UInt32} (h : ∀ i, (w.conn i).used = true → (w.conn i).id ≠ id) :
    ¬ Live w ⟨IPPROTO_TCP, id⟩ := by
  rintro (⟨hp, -⟩ | ⟨-, i, hi, hid⟩)
  · exact absurd (show IPPROTO_TCP = IPPROTO_UDP from hp) (by decide)
  · exact h i hi hid

/-- In every run in which fewer than `2 ^ 32 - 1` identifiers are given to queries and to
connections (so in every run with fewer queries and connections than that), whatever arrives on the
sockets in whatever order, the identifiers in the tables are distinct and not zero, and every
response was sent to the client that asked. -/
theorem dns_responses_routed (udpFd tcpFd channelFd : Int) (clock : Nat) (answers : List PollAnswer)
    (hqueries : (queryIds
      (dnsTunnelRun (dnsTunnelStart udpFd tcpFd channelFd clock) answers).log).length < 2 ^ 32 - 1)
    (hconnections : (connectionIds
      (dnsTunnelRun (dnsTunnelStart udpFd tcpFd channelFd clock) answers).log).length < 2 ^ 32 - 1) :
    WellRouted (dnsTunnelRun (dnsTunnelStart udpFd tcpFd channelFd clock) answers) := by
  obtain ⟨hu, ht⟩ := routed_of_steps (dnsTunnelRun_steps _ answers)
    (udpRouted_start udpFd tcpFd channelFd clock) (tcpRouted_start udpFd tcpFd channelFd clock)
    ⟨hqueries, hconnections⟩
  set w := dnsTunnelRun (dnsTunnelStart udpFd tcpFd channelFd clock) answers
  have hq : (queryIds w.log).length < 2 ^ 32 := by omega
  have hc : (connectionIds w.log).length < 2 ^ 32 := by omega
  constructor
  case udp_ids =>
    intro i hi
    exact ⟨hu.numbered.ne_zero hq (hu.id_mem hi), fun j hj hid => hu.id_inj hq hj hi hid⟩
  case tcp_ids =>
    intro i hi
    exact ⟨ht.numbered.ne_zero hc (ht.id_mem hi), fun j hj hid => ht.id_inj hc hj hi hid⟩
  case udp_replies =>
    intro p i id client dns q hpq
    exact hu.replies hq hpq
  case tcp_replies =>
    intro p i id fd framed sent q hpq
    exact ht.replies hc hpq
  case dead =>
    intro a r dns rest hrecv hlive
    rw [dnsHandleChannelReadable, hrecv]
    exact dnsRouteResponse_of_not_live hlive dns a.sent
  case unknown =>
    intro id hid
    exact not_live_udp fun i hi hc => hid (hc ▸ hu.id_mem hi)
  case unknown_tcp =>
    intro id hid
    exact not_live_tcp fun i hi hc => hid (hc ▸ ht.id_mem hi)
  case answered =>
    intro id e he hid
    exact not_live_udp fun i hi hc => hu.unanswered i hi e he (hc ▸ hid)

/-- Two queries and a connection, then responses to the second query, twice, and to the connection. -/
def exampleRun : List PollAnswer :=
  let reads : List WriteResult := [.took 100]
  let response (protocol : UInt8) (id : UInt32) : EventAnswer :=
    { readable := true, channel := ⟨dnsMessage protocol id [1], reads, reads, true⟩ }
  [.ready [{ readable := true
             udp := [.datagram ⟨1, 1000⟩ 16 [5] 0 true, .datagram ⟨2, 2000⟩ 16 [6] 1 true] },
           { readable := true, accepts := [.accepted 6] }],
   .ready [{}, {}, response IPPROTO_UDP 2], .ready [{}, {}, response IPPROTO_UDP 2],
   .ready [{}, {}, response IPPROTO_TCP 1]]

theorem dns_responses_routed_example :
    (dnsTunnelRun (dnsTunnelStart 3 4 5 0) exampleRun).log =
      [.udpForward 0 1 ⟨1, 1000⟩ [5] 0 true, .udpForward 1 2 ⟨2, 2000⟩ [6] 1 true, .tcpAccept 0 1 6,
       .udpReply 1 2 ⟨2, 2000⟩ [1], .udpFree 1, .tcpReply 0 1 6 [0, 1, 1] true] ∧
    WellRouted (dnsTunnelRun (dnsTunnelStart 3 4 5 0) exampleRun) :=
  ⟨by decide, dns_responses_routed 3 4 5 0 exampleRun (by decide) (by decide)⟩

end WslFreeBSD.Dns
