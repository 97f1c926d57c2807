import WslFreeBSD.Dns.Routing

/-!
# When a UDP query is refused

The UDP table has 64 slots and an entry is meant to live for 30 seconds, but entries past their
deadline are only dropped when `poll` times out, that is when nothing at all happens for a second.
A query that finds the table full is refused.

`Aged` relates the table to the history: every accepted query was given back or expired or is still
in its slot, with the deadline that belongs to its time. From this follows exactly when a refusal is
justified (`udp_refusal_exact`): when every query older than 30 seconds was given back or was
followed by a timeout after its deadline. A busy tunnel refuses queries although all entries of its
table are stale (`busy_tunnel_refuses`).
-/

namespace WslFreeBSD.Dns

open Lib

/-! ## Refusals -/

/-- A query was accepted into slot `i` at time `t`. -/
def AcceptedAt (i : Fin 64) (t : Nat) (e : Event) : Prop :=
  ∃ id client payload sent, e = .udpForward i id client payload t sent

/-- The last thing that happened to slot `i` is that it was given, at time `t`, to a query: the
query has not been answered and its slot has not been given back. -/
def Pending (p : List Event) (i : Fin 64) (t : Nat) : Prop :=
  Since (AcceptedAt i t) (·.udpSlot = some i) p

/-- A refusal at time `now` is justified: the table holds 64 queries of the preceding 30 seconds
that are unanswered, and none that is past its deadline. -/
def Justified (p : List Event) (now : Nat) : Prop :=
  (∀ i, ∃ t, Pending p i t ∧ t ≤ now ∧ now ≤ t + 30000) ∧ ∀ i t, Pending p i t → now ≤ t + 30000

/-- Slot `i` was given back, or there was a timeout of `poll` after the deadline of a query of
time `t`. -/
def Freed (i : Fin 64) (t : Nat) (q : List Event) : Prop :=
  ∃ e ∈ q, e = .udpFree i ∨ ∃ τ, e = .expire τ ∧ t + 30000 < τ

/-- Every query older than 30 seconds was given back or was followed by a timeout after its
deadline. -/
def Swept (p : List Event) (now : Nat) : Prop :=
  ∀ i id client payload t sent p₁ p₂, p = p₁ ++ .udpForward i id client payload t sent :: p₂ →
    t + 30000 < now → Freed i t p₂

theorem Freed.append {i : Fin 64} {t : Nat} {q : List Event} (h : Freed i t q) (l : List Event) :
    Freed i t (q ++ l) := by
  obtain ⟨e, he, hf⟩ := h
  exact ⟨e, List.mem_append_left l he, hf⟩

/-- What ends the stay of a query with deadline `d` in slot `i`. -/
def Ends (i : Fin 64) (d : Nat) (e : Event) : Prop :=
  e.udpSlot = some i ∨ ∃ τ, e = .expire τ ∧ d < τ

/-- Refusals are justified exactly when the table was swept. -/
def RefusalExact (p : List Event) (e : Event) : Prop :=
  ∀ now, e = .udpRefused now → (Justified p now ↔ Swept p now)

structure Aged (w : World) : Prop where
  settled : ∀ i id client payload t sent p q,
    w.log = p ++ .udpForward i id client payload t sent :: q →
      Freed i t q ∨ ((w.tunnel.udpMap i).used = true ∧ (w.tunnel.udpMap i).deadlineMs = t + 30000)
  current : ∀ i, (w.tunnel.udpMap i).used = true →
    ∃ t, (w.tunnel.udpMap i).deadlineMs = t + 30000 ∧ t ≤ w.clock ∧
      Since (AcceptedAt i t) (Ends i (t + 30000)) w.log
  swept : ∀ τ, .expire τ ∈ w.log → τ ≤ w.clock
  refused : Preceded RefusalExact w.log

/-- With the table full, a refusal at `now` is exact. -/
theorem Aged.refusal_exact {w : World} (h : Aged w) (hfull : ∀ i, (w.tunnel.udpMap i).used = true)
    {now : Nat} (hnow : w.clock ≤ now) : Justified w.log now ↔ Swept w.log now := by
  constructor
  · rintro ⟨hfresh, -⟩ i id client payload t sent p q hpq hold
    rcases h.settled i id client payload t sent p q hpq with hfreed | ⟨-, hdead⟩
    · exact hfreed
    · -- the slot holds a stale query, although its last query is a fresh one
      obtain ⟨t', ⟨p', a, q', hpq', ⟨id', client', payload', sent', rfl⟩, hq'⟩, -, hnew⟩ := hfresh i
      rcases h.settled i id' client' payload' t' sent' p' q' hpq' with ⟨e, he, rfl | ⟨τ, rfl, hτ⟩⟩ | ⟨-, hdead'⟩
      · exact absurd rfl (hq' _ he)
      · have := h.swept τ (by rw [hpq']; simp [he])
        omega
      · omega
  · intro hswept
    have hcur : ∀ i, ∃ t, t ≤ w.clock ∧ now ≤ t + 30000 ∧ Pending w.log i t := by
      intro i
      obtain ⟨t, -, ht, hsince⟩ := h.current i (hfull i)
      refine ⟨t, ht, ?_, hsince.anti fun e he => .inl he⟩
      by_contra hold
      obtain ⟨p, a, q, hpq, ⟨id, client, payload, sent, rfl⟩, hq⟩ := hsince
      obtain ⟨e, he, rfl | hexp⟩ := hswept i id client payload t sent p q hpq (by omega)
      · exact hq _ he (.inl rfl)
      · exact hq e he (.inr hexp)
    refine ⟨fun i => ?_, fun i t hp => ?_⟩
    · obtain ⟨t, ht, hfresh, hpend⟩ := hcur i
      exact ⟨t, hpend, by omega, hfresh⟩
    · obtain ⟨t', -, hfresh, p', a', q', hpq', ⟨id', client', payload', sent', rfl⟩, hq'⟩ := hcur i
      obtain ⟨p, a, q, hpq, ⟨id, client, payload, sent, rfl⟩, hq⟩ := hp
      have hlast := last_unique (E := fun e => e.udpSlot = some i) (hpq.symm.trans hpq') rfl rfl hq hq'
      injection hlast.1 with _ _ _ _ ht
      omega

/-! ## Steps -/

def Event.isForward : Event → Bool
  | .udpForward _ _ _ _ _ _ => true
  | _ => false

/-- A step that gives no slot away: every slot in use stays as it is or is freed by the new events,
and the slots still in use are not touched by them. -/
theorem Aged.extend {w w' : World} (h : Aged w) {l : List Event} (hlog : w'.log = w.log ++ l)
    (hl : ∀ e ∈ l, e.isForward = false) (hclock : w.clock ≤ w'.clock)
    (hexp : ∀ τ, .expire τ ∈ l → τ ≤ w'.clock)
    (hrefused : ∀ p e q, l = p ++ e :: q → RefusalExact (w.log ++ p) e)
    (hslots : ∀ i, (w.tunnel.udpMap i).used = true → w'.tunnel.udpMap i = w.tunnel.udpMap i ∨
      ∃ e ∈ l, e = .udpFree i ∨ ∃ τ, e = .expire τ ∧ (w.tunnel.udpMap i).deadlineMs < τ)
    (hkept : ∀ i, (w'.tunnel.udpMap i).used = true → w'.tunnel.udpMap i = w.tunnel.udpMap i ∧
      ∀ e ∈ l, ¬ Ends i (w.tunnel.udpMap i).deadlineMs e) : Aged w' := by
  refine ⟨?_, ?_, ?_, ?_⟩
  · intro i id client payload t sent p q hpq
    rw [hlog] at hpq
    have hnot : Event.udpForward i id client payload t sent ∉ l := by
      intro hm
      have := hl _ hm
      cases this
    obtain ⟨r, hr, rfl⟩ := split_append hpq hnot
    rcases h.settled i id client payload t sent p r hr with hfreed | ⟨hused, hdead⟩
    · exact .inl (hfreed.append l)
    · rcases hslots i hused with hsame | ⟨e, he, hfree⟩
      · exact .inr (by rw [hsame]; exact ⟨hused, hdead⟩)
      · rw [hdead] at hfree
        exact .inl ⟨e, List.mem_append_right r he, hfree⟩
  · intro i hi
    obtain ⟨hsame, hends⟩ := hkept i hi
    rw [hsame] at hi ⊢
    obtain ⟨t, hdead, ht, hsince⟩ := h.current i hi
    rw [hdead] at hends
    refine ⟨t, hdead, ht.trans hclock, ?_⟩
    rw [hlog]
    exact hsince.append hends
  · intro τ hτ
    rw [hlog] at hτ
    rcases List.mem_append.mp hτ with hτ | hτ
    · exact (h.swept τ hτ).trans hclock
    · exact hexp τ hτ
  · rw [hlog]
    exact h.refused.append hrefused

theorem refusalExact_of_ne {p : List Event} {e : Event} (h : ∀ now, e ≠ .udpRefused now) :
    RefusalExact p e := fun now he => absurd he (h now)

theorem refusalExact_of_forall_ne {l₀ l : List Event} (h : ∀ e ∈ l, ∀ now, e ≠ .udpRefused now) :
    ∀ p e q, l = p ++ e :: q → RefusalExact (l₀ ++ p) e := by
  intro p e q hpq
  apply refusalExact_of_ne
  apply h
  rw [hpq]
  exact List.mem_append_right p List.mem_cons_self

theorem not_ends {i : Fin 64} {d : Nat} {e : Event} (hslot : e.udpSlot ≠ some i)
    (htimeout : ∀ τ, e ≠ .expire τ) : ¬ Ends i d e := by
  rintro (hc | ⟨τ, hc, -⟩)
  · exact hslot hc
  · exact htimeout τ hc

theorem slot_ne {k i : Fin 64} (h : k ≠ i) : some i ≠ some k := fun hc => h (Option.some.inj hc).symm

theorem Aged.alloc {w : World} (h : Aged w) {i : Fin 64}
    (hfree : firstFree DnsUdpEntry.used w.tunnel.udpMap = some i) (client : SockAddr) (len : Nat)
    (payload : Bytes) (delay : Nat) (sent : Bool) :
    Aged ((w.allocUdp i client len delay).record
      (.udpForward i (w.tunnel.nextUdpId + 1) client payload (w.clock + delay) sent)) := by
  have hunused : (w.tunnel.udpMap i).used = false := used_firstFree hfree
  have hmap : ∀ k, k ≠ i → (w.allocUdp i client len delay).tunnel.udpMap k = w.tunnel.udpMap k :=
    fun k hk => Function.update_of_ne hk _ _
  have hself : (w.allocUdp i client len delay).tunnel.udpMap i =
      ⟨true, w.tunnel.nextUdpId + 1, client, len, w.clock + delay + 30000⟩ := Function.update_self _ _ _
  refine ⟨?_, ?_, ?_, ?_⟩
  · intro k id client' payload' t sent' p q hpq
    change w.log ++ [_] = _ at hpq
    change _ ∨ ((w.allocUdp i client len delay).tunnel.udpMap k).used = true ∧
      ((w.allocUdp i client len delay).tunnel.udpMap k).deadlineMs = _
    rcases List.eq_nil_or_concat q with rfl | ⟨q, e, rfl⟩
    · -- the query that has just been accepted
      obtain ⟨-, he⟩ := List.append_inj' hpq rfl
      injection he with he _
      injection he with hk _ _ _ ht _
      rw [← hk, ← ht, hself]
      exact .inr ⟨rfl, rfl⟩
    · rw [List.concat_eq_append, ← List.cons_append, ← List.append_assoc] at hpq
      obtain ⟨hold, -⟩ := List.append_inj' hpq rfl
      rw [List.concat_eq_append]
      rcases h.settled k id client' payload' t sent' p q hold with hfreed | ⟨hused, hdead⟩
      · exact .inl (hfreed.append _)
      · have hki : k ≠ i := by
          rintro rfl
          rw [hunused] at hused
          cases hused
        rw [hmap k hki]
        exact .inr ⟨hused, hdead⟩
  · intro k hk
    change ((w.allocUdp i client len delay).tunnel.udpMap k).used = true at hk
    change ∃ t, ((w.allocUdp i client len delay).tunnel.udpMap k).deadlineMs = _ ∧
      t ≤ w.clock + delay ∧ Since _ _ (w.log ++ [_])
    by_cases hki : k = i
    · subst hki
      rw [hself]
      exact ⟨w.clock + delay, rfl, le_rfl, Since.now ⟨_, _, _, _, rfl⟩⟩
    · rw [hmap k hki] at hk ⊢
      obtain ⟨t, hdead, ht, hsince⟩ := h.current k hk
      exact ⟨t, hdead, by omega, hsince.concat (not_ends (slot_ne hki) (by simp))⟩
  · intro τ hτ
    change Event.expire τ ∈ w.log ++ [_] at hτ
    change τ ≤ w.clock + delay
    have := h.swept τ (by simpa using hτ)
    omega
  · exact h.refused.concat (refusalExact_of_ne (by simp))

theorem Aged.free {w : World} (h : Aged w) (id : UInt32) : Aged (dnsUdpFree w id) := by
  unfold dnsUdpFree
  split
  · exact h
  · rename_i i hi
    set w' := (w.setEntry i { w.tunnel.udpMap i with used := false }).record (.udpFree i) with hw'
    have hmap : ∀ k, k ≠ i → w'.tunnel.udpMap k = w.tunnel.udpMap k :=
      fun k hk => Function.update_of_ne hk _ _
    refine h.extend (l := [.udpFree i]) rfl (by simp [Event.isForward]) le_rfl (by simp)
      (refusalExact_of_forall_ne (by simp)) ?_ ?_
    · intro k _
      by_cases hki : k = i
      · exact .inr ⟨_, List.mem_singleton_self _, .inl (by rw [hki])⟩
      · exact .inl (hmap k hki)
    · intro k hk
      obtain ⟨hki, hsame⟩ := World.udpMap_freed hw' hk
      refine ⟨hsame, ?_⟩
      intro e he
      rw [List.mem_singleton.mp he]
      exact not_ends (slot_ne hki) (by simp)

theorem Aged.reply {w : World} (h : Aged w) {i : Fin 64} {id : UInt32}
    (hlive : dnsUdpLookup w.tunnel id = some i) (client : SockAddr) (dns : Bytes) :
    Aged (dnsUdpFree (w.record (.udpReply i id client dns)) id) := by
  set e : Event := .udpReply i id client dns with he
  have hfree : dnsUdpFree (w.record e) id =
      ((w.record e).setEntry i { (w.record e).tunnel.udpMap i with used := false }).record (.udpFree i) :=
    dnsUdpFree_of_lookup hlive
  have hlog : (dnsUdpFree (w.record e) id).log = w.log ++ [e, .udpFree i] := by
    rw [hfree, World.log_record]
    exact List.append_assoc w.log [e] [.udpFree i]
  refine h.extend hlog (by simp [he, Event.isForward]) (by rw [hfree]; exact le_rfl) (by simp [he])
    (refusalExact_of_forall_ne (by simp [he])) ?_ ?_
  · intro k _
    by_cases hki : k = i
    · exact .inr ⟨.udpFree i, by simp, .inl (by rw [hki])⟩
    · rw [hfree]
      exact .inl (Function.update_of_ne hki _ _)
  · intro k hk
    obtain ⟨hki, hsame⟩ := World.udpMap_freed hfree hk
    refine ⟨hsame, ?_⟩
    intro a ha
    simp only [List.mem_cons, List.not_mem_nil, or_false] at ha
    rcases ha with rfl | rfl
    · exact not_ends (slot_ne hki) (by simp [he])
    · exact not_ends (slot_ne hki) (by simp)

theorem Aged.expire {w : World} (h : Aged w) (delay : Nat) :
    Aged ({ w with tunnel := w.tunnel.expire (w.clock + delay), clock := w.clock + delay }.record
      (.expire (w.clock + delay))) := by
  refine h.extend (l := [.expire (w.clock + delay)]) rfl (by simp [Event.isForward])
    (Nat.le_add_right _ _) ?_ (refusalExact_of_forall_ne (by simp)) ?_ ?_
  · intro τ hτ
    simp only [List.mem_singleton, Event.expire.injEq] at hτ
    exact hτ.le
  · intro k hk
    by_cases hdead : (w.tunnel.udpMap k).deadlineMs < w.clock + delay
    · exact .inr ⟨_, List.mem_singleton_self _, .inr ⟨_, rfl, hdead⟩⟩
    · refine .inl ?_
      change (w.tunnel.expire (w.clock + delay)).udpMap k = _
      simp only [DnsTunnel.expire]
      exact if_neg fun hc => hdead hc.2.2
  · intro k hk
    obtain ⟨hsame, hlate⟩ := DnsTunnel.expire_of_used hk
    have hused : (w.tunnel.udpMap k).used = true := by
      rw [← hsame]
      exact hk
    obtain ⟨t, hdead, -, -⟩ := h.current k hused
    refine ⟨hsame, ?_⟩
    intro a ha
    rw [List.mem_singleton.mp ha]
    rintro (hc | ⟨τ, hc, hτ⟩)
    · cases hc
    · injection hc with hc
      exact hlate ⟨by omega, by omega⟩

theorem Aged.other {w w' : World} (h : Aged w) {l : List Event} (hlog : w'.log = w.log ++ l)
    (hl : ∀ e ∈ l, e.isUdp = false) (hmap : w'.tunnel.udpMap = w.tunnel.udpMap)
    (hclock : w'.clock = w.clock) : Aged w' := by
  have htimeout : ∀ e ∈ l, ∀ τ, e ≠ .expire τ := by
    rintro e he τ rfl
    cases hl _ he
  refine h.extend hlog ?_ hclock.ge (fun τ hτ => absurd rfl (htimeout _ hτ τ))
    (refusalExact_of_forall_ne ?_) (fun k _ => .inl (by rw [hmap])) ?_
  · intro e he
    have hno := hl e he
    cases e <;> first | rfl | cases hno
  · rintro e he now rfl
    cases hl _ he
  · intro k _
    refine ⟨by rw [hmap], fun e he => not_ends ?_ (htimeout e he)⟩
    rw [(Event.udpSlot_of_not_isUdp (hl e he)).1]
    exact (Option.some_ne_none k).symm

theorem Aged.refuse {w : World} (h : Aged w) (hfull : firstFree DnsUdpEntry.used w.tunnel.udpMap = none)
    (delay : Nat) :
    Aged ({ w with clock := w.clock + delay }.record (.udpRefused (w.clock + delay))) := by
  refine h.extend (l := [.udpRefused (w.clock + delay)]) rfl (by simp [Event.isForward])
    (Nat.le_add_right _ _) (by simp) ?_ (fun k _ => .inl rfl) ?_
  · intro p a q hpq
    match p, hpq with
    | [], hpq =>
      obtain ⟨rfl, -⟩ := List.cons.inj hpq
      intro now hnow
      injection hnow with hnow
      rw [List.append_nil]
      exact h.refusal_exact (firstFree_eq_none_iff.mp hfull) (by omega)
    | b :: p, hpq => simp at hpq
  · intro k _
    refine ⟨rfl, ?_⟩
    intro a ha
    rw [List.mem_singleton.mp ha]
    exact not_ends (by simp [Event.udpSlot]) (by simp)

theorem Aged.step {w w' : World} (h : Aged w) (hs : UdpEffect w w') : Aged w' := by
  cases hs with
  | other l hlog hl hmap hnext hclock => exact h.other hlog hl hmap hclock
  | forward hfree heq =>
    rw [heq]
    exact h.alloc hfree _ _ _ _ _
  | fail hfree heq =>
    rw [heq]
    exact (h.alloc hfree _ _ _ _ _).free _
  | refuse hfull heq =>
    rw [heq]
    exact h.refuse hfull _
  | reply hlive heq =>
    rw [heq]
    exact h.reply hlive _ _
  | expire heq =>
    rw [heq]
    exact h.expire _

theorem aged_start (udpFd tcpFd channelFd : Int) (clock : Nat) :
    Aged (dnsTunnelStart udpFd tcpFd channelFd clock) := by
  refine ⟨?_, ?_, ?_, Preceded.nil⟩
  · intro i id client payload t sent p q hpq
    have hlen := congrArg List.length hpq
    simp [dnsTunnelStart] at hlen
  · intro i hi
    cases hi
  · intro τ hτ
    cases hτ

/-- In every run, a refused query is refused with a table of 64 unanswered queries of the preceding
30 seconds exactly when every older query was given back or was followed by a timeout of `poll`
after its deadline. -/
theorem udp_refusal_exact (udpFd tcpFd channelFd : Int) (clock : Nat) (answers : List PollAnswer)
    (p q : List Event) (now : Nat)
    (hrefused : (dnsTunnelRun (dnsTunnelStart udpFd tcpFd channelFd clock) answers).log =
      p ++ .udpRefused now :: q) :
    Justified p now ↔ Swept p now := by
  have haged : Aged (dnsTunnelRun (dnsTunnelStart udpFd tcpFd channelFd clock) answers) :=
    Steps.inv (fun _ _ hw hs => hw.step hs.udpEffect) (dnsTunnelRun_steps _ answers)
      (aged_start udpFd tcpFd channelFd clock)
  exact haged.refused p _ q hrefused now rfl

/-! ## A full table -/

/-- A table full of queries, then a message from the host every second (for a client that does not
exist) for the given time, and a further query. -/
def fullRun (seconds : Nat) : List PollAnswer :=
  let query (delay : Nat) : UdpAnswer := .datagram ⟨1, 1000⟩ 16 [5] delay true
  let response : EventAnswer :=
    { readable := true
      channel := ⟨dnsMessage IPPROTO_UDP 0 [1], [.took 100], [.took 100], true⟩ }
  .ready [{ readable := true, udp := List.replicate 64 (query 0) }] ::
    List.replicate seconds (.ready [{}, {}, response]) ++
    [.ready [{ readable := true, udp := [query (1000 * seconds)] }]]

def fillTable : List Event :=
  (List.finRange 64).map fun i => .udpForward i (UInt32.ofNat (i + 1)) ⟨1, 1000⟩ [5] 0 true

theorem time_of_mem_fillTable {i : Fin 64} {id : UInt32} {client : SockAddr} {payload : Bytes} {t : Nat}
    {sent : Bool} (h : Event.udpForward i id client payload t sent ∈ fillTable) : t = 0 := by
  obtain ⟨j, -, hj⟩ := List.mem_map.mp h
  injection hj with _ _ _ _ ht
  exact ht.symm

/-- After two seconds the refusal is justified. -/
theorem udp_refusal_exact_full :
    (dnsTunnelRun (dnsTunnelStart 3 4 5 0) (fullRun 2)).log = fillTable ++ .udpRefused 2000 :: [] ∧
      Justified fillTable 2000 := by
  have hlog : (dnsTunnelRun (dnsTunnelStart 3 4 5 0) (fullRun 2)).log =
      fillTable ++ .udpRefused 2000 :: [] := by decide +kernel
  refine ⟨hlog, (udp_refusal_exact 3 4 5 0 (fullRun 2) fillTable [] 2000 hlog).mpr ?_⟩
  intro i id client payload t sent p₁ p₂ hp hold
  omega

/-- After 31 seconds in which `poll` never timed out, a query is refused although no query was
accepted in the preceding 30 seconds. -/
theorem busy_tunnel_refuses :
    (dnsTunnelRun (dnsTunnelStart 3 4 5 0) (fullRun 31)).log = fillTable ++ .udpRefused 31000 :: [] ∧
      ¬ Justified fillTable 31000 := by
  refine ⟨by decide +kernel, ?_⟩
  rintro ⟨hfresh, -⟩
  obtain ⟨t, hpend, -, hnew⟩ := hfresh 0
  obtain ⟨e, he, id, client, payload, sent, rfl⟩ := hpend.exists_mem
  have := time_of_mem_fillTable he
  omega

end WslFreeBSD.Dns
