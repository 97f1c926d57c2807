import Mathlib.Data.List.Induction
import WslFreeBSD.Ports.Entry

/-!
# The port tracker

`port_tracker_poll` compares a new snapshot of the listening ports with the stored one and sends
a Start message for every new port and a Stop message for every port that is gone; then the new
snapshot is stored. The host holds the ports that the messages it has received leave it with.

If every send succeeds, the host holds the stored snapshot after every poll, and no message is
superfluous (`polls_correct`). The result of a send does not influence what is stored, so a
message that was not delivered is never sent again: the tracker follows the host exactly when
all messages for changed ports go out (`reliable_iff`).
-/

namespace WslFreeBSD.Ports

open Lib Protocol

/-! ## Polling -/

/-- `struct port_tracker`: the entries of the last snapshot. -/
structure PortTracker where
  entries : List PortEntry
  deriving DecidableEq, Repr

/-- `port_tracker_init`. -/
def portTrackerInit : PortTracker := ⟨[]⟩

/-- The environment of one poll: what the kernel lists and which sends succeed. -/
structure Scan where
  os : OsPorts := {}
  sends : Change PortEntry → Bool := fun _ => true

/-- The messages of a poll (`added` is a Start, `removed` a Stop), each with the result of its
send, and the tracker afterwards. -/
structure PollResult where
  tracker : PortTracker
  messages : List (Change PortEntry × Bool)
  deriving DecidableEq, Repr

/-- `port_tracker_poll`. A snapshot that cannot be taken leaves everything as it is. -/
def portTrackerPoll (p : Platform) (t : PortTracker) (scan : Scan) : PollResult :=
  match collectListeningPorts p scan.os with
  | none => ⟨t, []⟩
  | some cur => ⟨⟨cur⟩, (mergeDiff portEntryCmp cur t.entries).map fun c => (c, scan.sends c)⟩

def delivered (messages : List (Change PortEntry × Bool)) : List (Change PortEntry) :=
  (messages.filter Prod.snd).map Prod.fst

/-- The tracker and the ports the host holds, after some polls. -/
structure World where
  tracker : PortTracker
  held : Set PortEntry

def World.init : World := ⟨portTrackerInit, ∅⟩

def World.poll (p : Platform) (w : World) (scan : Scan) : World :=
  let out := portTrackerPoll p w.tracker scan
  ⟨out.tracker, applyAll w.held (delivered out.messages)⟩

def World.polls (p : Platform) (scans : List Scan) : World := scans.foldl (World.poll p) World.init

theorem polls_concat (p : Platform) (scans : List Scan) (scan : Scan) :
    World.polls p (scans ++ [scan]) = (World.polls p scans).poll p scan := List.foldl_concat ..

/-! ## What is stored -/

theorem poll_of_none {p : Platform} {t : PortTracker} {scan : Scan}
    (h : scan.os.listed p = none) : portTrackerPoll p t scan = ⟨t, []⟩ := by
  have hc : collectListeningPorts p scan.os = none := by rw [collectListeningPorts, h]; rfl
  rw [portTrackerPoll, hc]

theorem poll_of_some {p : Platform} {t : PortTracker} {scan : Scan} {l : List PortEntry}
    (h : scan.os.listed p = some l) : portTrackerPoll p t scan = ⟨⟨portEntryDedupSort l⟩,
      (mergeDiff portEntryCmp (portEntryDedupSort l) t.entries).map fun c => (c, scan.sends c)⟩ := by
  rw [portTrackerPoll, collect_eq_some h]

def lastListed (p : Platform) (scans : List Scan) : List PortEntry :=
  (scans.reverse.findSome? fun scan => scan.os.listed p).getD []

theorem lastListed_concat (p : Platform) (scans : List Scan) (scan : Scan) :
    lastListed p (scans ++ [scan]) = (scan.os.listed p).getD (lastListed p scans) := by
  unfold lastListed
  rw [List.reverse_append, List.reverse_singleton, List.singleton_append, List.findSome?_cons]
  cases scan.os.listed p <;> rfl

theorem stored_polls (p : Platform) (scans : List Scan) :
    StrictlySorted portEntryCmp (World.polls p scans).tracker.entries ∧
      ∀ e, e ∈ (World.polls p scans).tracker.entries ↔ e ∈ lastListed p scans := by
  induction scans using List.reverseRecOn with
  | nil => exact ⟨List.Pairwise.nil, fun e => Iff.rfl⟩
  | append_singleton scans scan ih =>
    rw [polls_concat, World.poll, lastListed_concat]
    cases h : scan.os.listed p with
    | none =>
      rw [poll_of_none h]
      exact ih
    | some l =>
      rw [poll_of_some h]
      exact ⟨strictlySorted_portEntryDedupSort l, mem_portEntryDedupSort l⟩

/-! ## One poll -/

theorem map_fst_poll (scan : Scan) (out : List (Change PortEntry)) :
    (out.map fun c => (c, scan.sends c)).map Prod.fst = out := by
  rw [List.map_map]
  exact List.map_id'' (fun _ => rfl) out

theorem delivered_poll (scan : Scan) (out : List (Change PortEntry)) :
    delivered (out.map fun c => (c, scan.sends c)) = out.filter scan.sends := by
  unfold delivered
  rw [List.filter_map, List.map_map]
  exact List.map_id'' (fun _ => rfl) _

theorem mem_held_poll {p : Platform} {w : World} {scan : Scan} {l : List PortEntry}
    (hs : StrictlySorted portEntryCmp w.tracker.entries) (hheld : w.held = { e | e ∈ w.tracker.entries })
    (h : scan.os.listed p = some l) (e : PortEntry) :
    e ∈ (w.poll p scan).held ↔
      (e ∈ w.tracker.entries ∧ ¬ (e ∉ l ∧ scan.sends (.removed e) = true)) ∨
        (e ∈ l ∧ e ∉ w.tracker.entries ∧ scan.sends (.added e) = true) := by
  have hdiff : IsDiff (portEntryDedupSort l) w.tracker.entries
      (mergeDiff portEntryCmp (portEntryDedupSort l) w.tracker.entries) :=
    isDiff_mergeDiff lawfulCmp_portEntryCmp (strictlySorted_portEntryDedupSort l) hs
  have hadd : ∀ e, .added e ∈ (mergeDiff portEntryCmp (portEntryDedupSort l)
      w.tracker.entries).filter scan.sends ↔
      (e ∈ l ∧ e ∉ w.tracker.entries) ∧ scan.sends (.added e) = true := by
    intro e
    rw [List.mem_filter, hdiff.added, mem_portEntryDedupSort]
  have hrem : ∀ e, .removed e ∈ (mergeDiff portEntryCmp (portEntryDedupSort l)
      w.tracker.entries).filter scan.sends ↔
      (e ∈ w.tracker.entries ∧ e ∉ l) ∧ scan.sends (.removed e) = true := by
    intro e
    rw [List.mem_filter, hdiff.removed, mem_portEntryDedupSort]
  obtain ⟨-, hmem⟩ := @consistent_applyAll _ w.held _ (hdiff.nodup.filter scan.sends)
    (fun e he => by rw [hheld]; exact ((hadd e).mp he).1.2)
    (fun e he => by rw [hheld]; exact ((hrem e).mp he).1.1)
  have hpoll : (w.poll p scan).held = applyAll w.held ((mergeDiff portEntryCmp
      (portEntryDedupSort l) w.tracker.entries).filter scan.sends) := by
    rw [World.poll, poll_of_some h, delivered_poll]
  rw [hpoll, hmem, hadd, hrem, hheld, Set.mem_ofPred_eq]
  constructor
  · rintro (⟨he, hno⟩ | ⟨⟨he, hne⟩, hsend⟩)
    · exact .inl ⟨he, fun hc => hno ⟨⟨he, hc.1⟩, hc.2⟩⟩
    · exact .inr ⟨he, hne, hsend⟩
  · rintro (⟨he, hno⟩ | ⟨he, hne, hsend⟩)
    · exact .inl ⟨he, fun hc => hno ⟨hc.1.2, hc.2⟩⟩
    · exact .inr ⟨⟨he, hne⟩, hsend⟩

def ChangesDelivered (prev l : List PortEntry) (sends : Change PortEntry → Bool) : Prop :=
  (∀ e ∈ l, e ∉ prev → sends (.added e) = true) ∧ ∀ e ∈ prev, e ∉ l → sends (.removed e) = true

/-- A poll takes a host that held the stored ports to the new snapshot exactly when the messages
for the changed ports go out. -/
theorem held_poll_iff {p : Platform} {w : World} {scan : Scan} {l : List PortEntry}
    (hs : StrictlySorted portEntryCmp w.tracker.entries) (hheld : w.held = { e | e ∈ w.tracker.entries })
    (h : scan.os.listed p = some l) :
    (w.poll p scan).held = { e | e ∈ l } ↔ ChangesDelivered w.tracker.entries l scan.sends := by
  have hmem := mem_held_poll hs hheld h
  constructor
  · intro heq
    rw [heq] at hmem
    refine ⟨fun e he hne => ?_, fun e he hno => ?_⟩
    · rcases (hmem e).mp he with ⟨hin, -⟩ | ⟨-, -, hsend⟩
      · exact absurd hin hne
      · exact hsend
    · by_contra hsend
      exact hno ((hmem e).mpr (.inl ⟨he, fun hc => hsend hc.2⟩))
  · rintro ⟨hadd, hrem⟩
    ext e
    rw [hmem, Set.mem_ofPred_eq]
    by_cases hl : e ∈ l <;> by_cases he : e ∈ w.tracker.entries
    · simp [hl, he]
    · simp [hl, he, hadd e hl he]
    · simp [hl, he, hrem e he hl]
    · simp [hl, he]

/-! ## All sends succeed -/

/-- What one poll does to a host that holds `held`, when every send succeeds. -/
structure PollCorrect (p : Platform) (w : World) (scan : Scan) : Prop where
  /-- The host holds the new snapshot. -/
  holds : ∀ l, scan.os.listed p = some l → (w.poll p scan).held = { e | e ∈ l }
  /-- Without a snapshot nothing is sent. -/
  silent : scan.os.listed p = none →
    (portTrackerPoll p w.tracker scan).messages = [] ∧ (w.poll p scan).held = w.held
  /-- No Start for a port that is held, no Stop for one that is not. -/
  consistent : Consistent w.held ((portTrackerPoll p w.tracker scan).messages.map Prod.fst)
  /-- Every change is sent, and only changes are. -/
  changes : ∀ l, scan.os.listed p = some l → ∀ e,
    (.added e ∈ (portTrackerPoll p w.tracker scan).messages.map Prod.fst ↔ e ∈ l ∧ e ∉ w.held) ∧
    (.removed e ∈ (portTrackerPoll p w.tracker scan).messages.map Prod.fst ↔ e ∈ w.held ∧ e ∉ l)
  /-- No change is sent twice. -/
  once : ((portTrackerPoll p w.tracker scan).messages.map Prod.fst).Nodup
  sorted : StrictlySorted portEntryCmp (w.poll p scan).tracker.entries

theorem held_polls_of_sends {p : Platform} {scans : List Scan}
    (h : ∀ scan ∈ scans, ∀ c, scan.sends c = true) :
    (World.polls p scans).held = { e | e ∈ (World.polls p scans).tracker.entries } := by
  induction scans using List.reverseRecOn with
  | nil =>
    ext e
    simp [World.polls, World.init, portTrackerInit]
  | append_singleton scans scan ih =>
    have ih' := ih fun s hs => h s (List.mem_append_left _ hs)
    have hsends := h scan (by simp)
    rw [polls_concat]
    cases hl : scan.os.listed p with
    | none =>
      rw [World.poll, poll_of_none hl]
      exact ih'
    | some l =>
      obtain ⟨hs, -⟩ := stored_polls p scans
      rw [(held_poll_iff hs ih' hl).mpr ⟨fun e _ _ => hsends _, fun e _ _ => hsends _⟩, World.poll,
        poll_of_some hl]
      ext e
      exact (mem_portEntryDedupSort l e).symm

/-- After any polls in which every send succeeds, one more poll whose sends succeed does what it
should: the host holds the current snapshot, every change was sent once, and nothing else. -/
theorem polls_correct (p : Platform) (scans : List Scan) (scan : Scan)
    (h : ∀ s ∈ scans ++ [scan], ∀ c, s.sends c = true) :
    PollCorrect p (World.polls p scans) scan := by
  have hheld := held_polls_of_sends (p := p) fun s hs => h s (List.mem_append_left _ hs)
  have hsends := h scan (by simp)
  obtain ⟨hs, -⟩ := stored_polls p scans
  have hnext := (stored_polls p (scans ++ [scan])).1
  rw [polls_concat] at hnext
  cases hl : scan.os.listed p with
  | none =>
    have hpoll := poll_of_none (t := (World.polls p scans).tracker) hl
    refine ⟨fun l hl' => ?_, fun _ => ?_, ?_, fun l hl' => ?_, ?_, hnext⟩
    · rw [hl] at hl'
      cases hl'
    · rw [World.poll, hpoll]
      exact ⟨rfl, rfl⟩
    · rw [hpoll]
      exact trivial
    · rw [hl] at hl'
      cases hl'
    · rw [hpoll]
      exact List.nodup_nil
  | some l =>
    have hpoll := poll_of_some (t := (World.polls p scans).tracker) hl
    have hdiff := isDiff_mergeDiff lawfulCmp_portEntryCmp (strictlySorted_portEntryDedupSort l) hs
    have hmsgs : (portTrackerPoll p (World.polls p scans).tracker scan).messages.map Prod.fst =
        mergeDiff portEntryCmp (portEntryDedupSort l) (World.polls p scans).tracker.entries := by
      rw [hpoll]
      exact map_fst_poll scan _
    refine ⟨fun l' hl' => ?_, fun hno => ?_, ?_, fun l' hl' e => ?_, ?_, hnext⟩
    · rw [hl] at hl'
      cases hl'
      exact (held_poll_iff hs hheld hl).mpr ⟨fun e _ _ => hsends _, fun e _ _ => hsends _⟩
    · rw [hl] at hno
      cases hno
    · rw [hmsgs, hheld]
      exact hdiff.applyAll.1
    · rw [hl] at hl'
      cases hl'
      rw [hmsgs, hdiff.added, hdiff.removed, hheld, mem_portEntryDedupSort]
      exact ⟨Iff.rfl, Iff.rfl⟩
    · rw [hmsgs]
      exact hdiff.nodup

/-! ## Sends that fail -/

/-- After every poll the tracker stores what the host holds, and a message that was not
delivered is sent again by the next poll while it is still due. -/
structure Reliable (p : Platform) (scans : List Scan) : Prop where
  follows : ∀ q, q <+: scans →
    (World.polls p q).held = { e | e ∈ (World.polls p q).tracker.entries }
  resends : ∀ q s s' r l, scans = q ++ s :: s' :: r → s'.os.listed p = some l →
    ∀ c, (c, false) ∈ (portTrackerPoll p (World.polls p q).tracker s).messages →
      (match c with
        | .added e => e ∈ l
        | .removed e => e ∉ l) →
      c ∈ (portTrackerPoll p (World.polls p (q ++ [s])).tracker s').messages.map Prod.fst

/-- In every poll the messages for the ports that changed since the last snapshot go out. -/
def AllDelivered (p : Platform) (scans : List Scan) : Prop :=
  ∀ q scan r l, scans = q ++ scan :: r → scan.os.listed p = some l →
    ChangesDelivered (lastListed p q) l scan.sends

theorem changesDelivered_congr {prev prev' l : List PortEntry} {sends : Change PortEntry → Bool}
    (h : ∀ e, e ∈ prev ↔ e ∈ prev') :
    ChangesDelivered prev l sends ↔ ChangesDelivered prev' l sends := by
  simp only [ChangesDelivered, h]

theorem follows_of_delivered {p : Platform} {scans : List Scan} (h : AllDelivered p scans) :
    (World.polls p scans).held = { e | e ∈ (World.polls p scans).tracker.entries } := by
  induction scans using List.reverseRecOn with
  | nil =>
    ext e
    simp [World.polls, World.init, portTrackerInit]
  | append_singleton scans scan ih =>
    have ih' := ih fun q s r l hsplit => h q s (r ++ [scan]) l (by simp [hsplit])
    rw [polls_concat]
    cases hl : scan.os.listed p with
    | none =>
      rw [World.poll, poll_of_none hl]
      exact ih'
    | some l =>
      obtain ⟨hs, hmem⟩ := stored_polls p scans
      have hdel := (changesDelivered_congr hmem).mpr (h scans scan [] l rfl hl)
      rw [(held_poll_iff hs ih' hl).mpr hdel, World.poll, poll_of_some hl]
      ext e
      exact (mem_portEntryDedupSort l e).symm

theorem no_loss_of_delivered {p : Platform} {scans q : List Scan} {s : Scan} {r : List Scan}
    (h : AllDelivered p scans) (hsplit : scans = q ++ s :: r) (c : Change PortEntry) :
    (c, false) ∉ (portTrackerPoll p (World.polls p q).tracker s).messages := by
  intro hmem
  obtain ⟨hs, hstored⟩ := stored_polls p q
  cases hl : s.os.listed p with
  | none =>
    rw [poll_of_none hl] at hmem
    cases hmem
  | some l =>
    rw [poll_of_some hl] at hmem
    obtain ⟨c', hc', heq⟩ := List.mem_map.mp hmem
    obtain ⟨rfl, hfail⟩ := Prod.mk.inj heq
    have hdiff := isDiff_mergeDiff lawfulCmp_portEntryCmp (strictlySorted_portEntryDedupSort l) hs
    obtain ⟨hadd, hrem⟩ := (changesDelivered_congr hstored).mpr (h q s r l hsplit hl)
    cases c' with
    | added e =>
      obtain ⟨hin, hno⟩ := (hdiff.added e).mp hc'
      rw [hadd e ((mem_portEntryDedupSort l e).mp hin) hno] at hfail
      cases hfail
    | removed e =>
      obtain ⟨hin, hno⟩ := (hdiff.removed e).mp hc'
      rw [hrem e hin fun he => hno ((mem_portEntryDedupSort l e).mpr he)] at hfail
      cases hfail

/-- The tracker follows the host in every poll exactly when no message for a changed port is
lost. -/
theorem reliable_iff (p : Platform) (scans : List Scan) : Reliable p scans ↔ AllDelivered p scans := by
  constructor
  · intro h q scan r l hsplit hl
    have hq := h.follows q ⟨scan :: r, hsplit.symm⟩
    have hnext := h.follows (q ++ [scan]) ⟨r, by simp [hsplit]⟩
    obtain ⟨hs, hmem⟩ := stored_polls p q
    refine (changesDelivered_congr hmem).mp ((held_poll_iff hs hq hl).mp ?_)
    rw [polls_concat] at hnext
    rw [hnext, World.poll, poll_of_some hl]
    ext e
    exact mem_portEntryDedupSort l e
  · intro h
    refine ⟨fun q hq => ?_, fun q s s' r l hsplit hl c hmem _ => ?_⟩
    · obtain ⟨r, rfl⟩ := hq
      refine follows_of_delivered fun q' s r' l hsplit => h q' s (r' ++ r) l ?_
      rw [hsplit]
      simp
    · exact absurd hmem (no_loss_of_delivered h hsplit c)

def wildcard8080 : Pcb := { lport := htons 8080, laddr := {} }

/-- The Start message of the first poll is lost; the second poll sees the same port. -/
def lossyScans : List Scan :=
  [{ os := { pcblist := some [wildcard8080] }, sends := fun _ => false },
   { os := { pcblist := some [wildcard8080] } }]

/-- The second poll sends nothing although the host does not hold the port. -/
theorem lost_start_not_resent : ¬ ∀ (p : Platform) (scans : List Scan), Reliable p scans := by
  intro h
  have hresend := (h .freebsd lossyScans).resends [] _ _ [] _ rfl rfl
    (.added ⟨AF_INET, 8080, {}⟩) (by decide) (by decide)
  revert hresend
  decide

theorem polls_correct_8080 :
    PollCorrect .freebsd (World.polls .freebsd [{ os := { pcblist := some [wildcard8080] } }]) {} :=
  polls_correct .freebsd [{ os := { pcblist := some [wildcard8080] } }] {} (by simp)

end WslFreeBSD.Ports
