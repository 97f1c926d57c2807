import Mathlib.Data.List.Induction
import WslFreeBSD.Lib.OrderedMap
import WslFreeBSD.Ports.Entry

/-!
# The port tracker of the reference

`GnsPortTracker::Run` answers the `bind()` calls of the guest. A port that is not tracked yet is
requested from the host, and tracked if the host grants it. Snapshots of the bound ports, taken by
another thread, say which ports can be released: those that are not listed although they have been
listed before, or whose timeout is over.

Over every run the requests that the host grants and the releases alternate for each allocation, and
the tracked ones are those that the host has granted last (`run_consistent`). A bind to a port that
is tracked already does not renew its timeout, so that the port can be released under the new socket
(`rebound_port_released`). In a run without such binds a port is kept for 60 seconds (`kept_of_fresh`).
-/

namespace WslFreeBSD.Reference.GnsPortTracker

open Lib Protocol Ports

/-! ## Allocations -/

@[ext]
structure PortAllocation where
  address : Addr
  port : UInt16
  family : Int
  protocol : Int
  deriving DecidableEq

/-- `operator<`. -/
def PortAllocation.lt (a b : PortAllocation) : Bool :=
  if a.port < b.port then true
  else if a.port > b.port then false
  else if a.family < b.family then true
  else if a.family > b.family then false
  else if a.protocol < b.protocol then true
  else if a.protocol > b.protocol then false
  else if memcmp a.address.bytes b.address.bytes < 0 then true
  else if memcmp a.address.bytes b.address.bytes > 0 then false
  else false

abbrev Allocations := List (PortAllocation × Option Int)

/-- `c_bind_timeout_seconds`. -/
def bindTimeoutSeconds : Int := 60

structure BindCall where
  request : Option PortAllocation
  callId : Nat
  deriving DecidableEq

/-- The ports are those that the kernel lists, in any order. -/
structure PortRefreshResult where
  ports : List PortAllocation
  timestamp : Int
  deriving DecidableEq

/-- `std::set::find` in the set of the listed ports. -/
def PortRefreshResult.contains (r : PortRefreshResult) (p : PortAllocation) : Bool :=
  (OrderedMap.find PortAllocation.lt p
    (r.ports.foldl (fun m q => OrderedMap.emplace PortAllocation.lt q () m) [])).isSome

/-! ## The loop -/

/-- `future` is there as long as a snapshot is awaited. -/
structure Tracker where
  allocatedPorts : Allocations
  future : Bool
  refreshResult : Option PortRefreshResult
  deriving DecidableEq

def Tracker.init : Tracker := ⟨[], true, none⟩

def Tracker.find (t : Tracker) (p : PortAllocation) : Option (Option Int) :=
  OrderedMap.find PortAllocation.lt p t.allocatedPorts

/-- What the loop tells the host and the guest. -/
inductive Event where
  /-- a request for a port with the answer of the host -/
  | allocate (p : PortAllocation) (result : Int)
  | release (p : PortAllocation) (result : Int)
  /-- `CompleteRequest` -/
  | complete (call : BindCall) (result : Int)
  deriving DecidableEq

/-- The environment of one pass: the call that is read, if there is one, the answers of the host, the
clock, and the snapshot that is ready, if there is one. -/
structure Pass where
  bindCall : Option BindCall := none
  reply : Int := 0
  releaseReply : PortAllocation → Int := fun _ => 0
  now : Int := 0
  refresh : Option PortRefreshResult := none

/-- `HandleRequest`. -/
def handleRequest (t : Tracker) (i : Pass) (p : PortAllocation) : Int × List Event :=
  if (t.find p).isSome then (0, []) else (i.reply, [.allocate p i.reply])

/-- A port that was granted is tracked, if it is not tracked yet. -/
def Tracker.track (t : Tracker) (p : PortAllocation) (now : Int) : Tracker :=
  { t with allocatedPorts :=
      OrderedMap.emplace PortAllocation.lt p (some (now + bindTimeoutSeconds)) t.allocatedPorts }

/-- The first part of a pass: a call is answered. -/
def answerCall (t : Tracker) (i : Pass) : Tracker × List Event :=
  match i.bindCall with
  | none => (t, [])
  | some call =>
    match call.request with
    | none => (t, [.complete call 0])
    | some p =>
      let r := handleRequest t i p
      (if r.1 = 0 then t.track p i.now else t, r.2 ++ [.complete call r.1])

/-- What a snapshot does with an allocation: its new timeout, or nothing if it is released. -/
def refreshed (r : PortRefreshResult) (p : PortAllocation) (timeout : Option Int) :
    Option (Option Int) :=
  if r.contains p then some none
  else
    match timeout with
    | none => none
    | some time => if time < r.timestamp then none else some (some time)

/-- `OnRefreshAllocatedPorts`. -/
def onRefreshAllocatedPorts (t : Tracker) (i : Pass) (r : PortRefreshResult) : Tracker × List Event :=
  ({ t with allocatedPorts := OrderedMap.filterMap (refreshed r) t.allocatedPorts },
    (t.allocatedPorts.filter fun e => (refreshed r e.1 e.2).isNone).map fun e =>
      .release e.1 (i.releaseReply e.1))

def readyRefresh (t : Tracker) (i : Pass) : Option PortRefreshResult :=
  if t.future then i.refresh else none

/-- The snapshot that is looked at in a pass: a call in the same pass may be newer. -/
def processedRefresh (t : Tracker) (i : Pass) : Option PortRefreshResult :=
  if i.bindCall = none then readyRefresh t i else none

/-- The second part of a pass: a snapshot that is ready is taken. -/
def takeRefresh (t : Tracker) (i : Pass) : Tracker × List Event :=
  match readyRefresh t i with
  | none => (t, [])
  | some r =>
    let taken := { t with future := false, refreshResult := some r }
    if i.bindCall = none then onRefreshAllocatedPorts taken i r else (taken, [])

/-- The last part of a pass: the other thread goes on if there is something to release. -/
def resume (t : Tracker) : Tracker :=
  if t.refreshResult ≠ none ∧ t.allocatedPorts ≠ [] then { t with future := true, refreshResult := none }
  else t

/-- One pass of the loop of `Run`. -/
def pass (t : Tracker) (i : Pass) : Tracker × List Event :=
  let answered := answerCall t i
  let taken := takeRefresh answered.1 i
  (resume taken.1, answered.2 ++ taken.2)

def run (passes : List Pass) : Tracker := passes.foldl (fun t i => (pass t i).1) Tracker.init

def history : List Pass → Tracker → List Event
  | [], _ => []
  | i :: passes, t => (pass t i).2 ++ history passes (pass t i).1

/-! ## The order -/

theorem memcmp_eq_zero_iff (a b : Addr) : memcmp a.bytes b.bytes = 0 ↔ a = b := by
  have hlen : (a.bytes.map UInt8.toNat).length = (b.bytes.map UInt8.toNat).length := by
    simp [Addr.length_bytes]
  rw [memcmp, firstDiff_eq_zero_iff hlen]
  constructor
  · intro h
    exact Addr.bytes_injective (List.map_injective_iff.mpr (fun _ _ h => UInt8.toNat_inj.mp h) h)
  · rintro rfl
    rfl

theorem memcmp_swap (a b : Addr) : memcmp a.bytes b.bytes = -memcmp b.bytes a.bytes :=
  firstDiff_swap _ _

theorem memcmp_trans {a b c : Addr} (h : memcmp a.bytes b.bytes < 0) (h' : memcmp b.bytes c.bytes < 0) :
    memcmp a.bytes c.bytes < 0 :=
  firstDiff_trans (by simp [Addr.length_bytes]) (by simp [Addr.length_bytes]) h h'

theorem ite_lt_iff {α : Type} [LinearOrder α] {x y : α} [Decidable (x < y)] [Decidable (y < x)] (rest : Bool) :
    (if x < y then true else if y < x then false else rest) = true ↔ x < y ∨ x = y ∧ rest = true := by
  rcases lt_trichotomy x y with hlt | rfl | hgt
  · simp [hlt]
  · simp
  · simp [hgt, hgt.not_gt, hgt.ne']

theorem PortAllocation.lt_iff (a b : PortAllocation) : a.lt b = true ↔
    a.port < b.port ∨ a.port = b.port ∧ (a.family < b.family ∨ a.family = b.family ∧
      (a.protocol < b.protocol ∨ a.protocol = b.protocol ∧ memcmp a.address.bytes b.address.bytes < 0)) := by
  unfold PortAllocation.lt
  simp only [gt_iff_lt, UInt16.lt_iff_toNat_lt, ← UInt16.toNat_inj]
  rw [ite_lt_iff, ite_lt_iff, ite_lt_iff, ite_lt_iff]
  simp

theorem lawfulLt_portAllocation : LawfulLt PortAllocation.lt where
  irrefl a := by
    have hzero := (memcmp_eq_zero_iff a.address a.address).mpr rfl
    rw [← Bool.not_eq_true, PortAllocation.lt_iff, hzero]
    simp
  trans a b c h h' := by
    rw [PortAllocation.lt_iff, UInt16.lt_iff_toNat_lt, ← UInt16.toNat_inj] at *
    have := @memcmp_trans a.address b.address c.address
    omega
  connected a b h h' := by
    rw [← Bool.not_eq_true, PortAllocation.lt_iff, UInt16.lt_iff_toNat_lt, ← UInt16.toNat_inj] at *
    have hswap := memcmp_swap a.address b.address
    have haddress := (memcmp_eq_zero_iff a.address b.address).mp (by omega)
    have hport : a.port.toNat = b.port.toNat := by omega
    exact PortAllocation.ext haddress (UInt16.toNat_inj.mp hport) (by omega) (by omega)

theorem contains_iff (r : PortRefreshResult) (p : PortAllocation) :
    r.contains p = true ↔ p ∈ r.ports := by
  have hset : ∀ (l : List PortAllocation) (m : List (PortAllocation × Unit)),
      OrderedMap.Sorted PortAllocation.lt m →
      ((OrderedMap.find PortAllocation.lt p
        (l.foldl (fun m q => OrderedMap.emplace PortAllocation.lt q () m) m)).isSome ↔
          p ∈ l ∨ (OrderedMap.find PortAllocation.lt p m).isSome) := by
    intro l
    induction l with
    | nil => simp
    | cons q l ih =>
      intro m hm
      rw [List.foldl_cons, ih _ (OrderedMap.sorted_emplace lawfulLt_portAllocation hm q ()),
        List.mem_cons]
      by_cases hpq : p = q
      · subst hpq
        simp [OrderedMap.find_emplace_self lawfulLt_portAllocation]
      · simp [OrderedMap.find_emplace_of_ne lawfulLt_portAllocation hm hpq, hpq]
  simpa [PortRefreshResult.contains, OrderedMap.find] using hset r.ports [] List.Pairwise.nil

/-! ## One pass -/

def Tracker.WellFormed (t : Tracker) : Prop := OrderedMap.Sorted PortAllocation.lt t.allocatedPorts

theorem wellFormed_init : Tracker.init.WellFormed := List.Pairwise.nil

@[simp] theorem find_resume (t : Tracker) (p : PortAllocation) : (resume t).find p = t.find p := by
  unfold resume
  split <;> rfl

theorem Tracker.WellFormed.resume {t : Tracker} (h : t.WellFormed) : (resume t).WellFormed := by
  unfold GnsPortTracker.resume
  split <;> exact h

theorem Tracker.WellFormed.track {t : Tracker} (h : t.WellFormed) (p : PortAllocation) (now : Int) :
    (t.track p now).WellFormed := OrderedMap.sorted_emplace lawfulLt_portAllocation h p _

theorem find_track_self (t : Tracker) (p : PortAllocation) (now : Int) :
    (t.track p now).find p = some ((t.find p).getD (some (now + bindTimeoutSeconds))) :=
  OrderedMap.find_emplace_self lawfulLt_portAllocation _ p _

theorem find_track_of_ne {t : Tracker} (h : t.WellFormed) {p q : PortAllocation} (hne : q ≠ p)
    (now : Int) : (t.track p now).find q = t.find q :=
  OrderedMap.find_emplace_of_ne lawfulLt_portAllocation h hne _

theorem Tracker.WellFormed.answerCall {t : Tracker} (h : t.WellFormed) (i : Pass) :
    (answerCall t i).1.WellFormed := by
  unfold GnsPortTracker.answerCall
  split
  · exact h
  · split
    · exact h
    · dsimp only
      split
      · exact h.track _ _
      · exact h

theorem Tracker.WellFormed.takeRefresh {t : Tracker} (h : t.WellFormed) (i : Pass) :
    (takeRefresh t i).1.WellFormed := by
  unfold GnsPortTracker.takeRefresh
  split
  · exact h
  · dsimp only
    split
    · exact OrderedMap.sorted_filterMap h
    · exact h

theorem Tracker.WellFormed.pass {t : Tracker} (h : t.WellFormed) (i : Pass) :
    (pass t i).1.WellFormed := ((h.answerCall i).takeRefresh i).resume

theorem find_takeRefresh {t : Tracker} (h : t.WellFormed) (i : Pass) (p : PortAllocation) :
    (takeRefresh t i).1.find p =
      (processedRefresh t i).elim (t.find p) fun r => (t.find p).bind (refreshed r p) := by
  unfold takeRefresh processedRefresh
  by_cases hcall : i.bindCall = none
  · simp only [if_pos hcall]
    cases readyRefresh t i with
    | none => rfl
    | some r => exact OrderedMap.find_filterMap lawfulLt_portAllocation h p
  · simp only [if_neg hcall]
    cases readyRefresh t i <;> rfl

theorem takeRefresh_events {t : Tracker} (i : Pass) :
    (takeRefresh t i).2 = (processedRefresh t i).elim [] fun r =>
      (t.allocatedPorts.filter fun e => (refreshed r e.1 e.2).isNone).map fun e =>
        .release e.1 (i.releaseReply e.1) := by
  unfold takeRefresh processedRefresh
  by_cases hcall : i.bindCall = none
  · simp only [if_pos hcall]
    cases readyRefresh t i <;> rfl
  · simp only [if_neg hcall]
    cases readyRefresh t i <;> rfl

@[simp] theorem processedRefresh_answerCall (t : Tracker) (i : Pass) :
    processedRefresh (answerCall t i).1 i = processedRefresh t i := by
  have hfuture : (answerCall t i).1.future = t.future := by
    unfold answerCall
    split
    · rfl
    · split
      · rfl
      · dsimp only
        split <;> rfl
  rw [processedRefresh, readyRefresh, hfuture]
  rfl

theorem find_pass {t : Tracker} (h : t.WellFormed) (i : Pass) (p : PortAllocation) :
    (pass t i).1.find p = (processedRefresh t i).elim ((answerCall t i).1.find p) fun r =>
      ((answerCall t i).1.find p).bind (refreshed r p) := by
  rw [pass, find_resume, find_takeRefresh (h.answerCall i), processedRefresh_answerCall]

theorem answerCall_of_processed {t : Tracker} {i : Pass} {r : PortRefreshResult}
    (h : processedRefresh t i = some r) : answerCall t i = (t, []) := by
  have hcall : i.bindCall = none := by
    by_contra hcall
    rw [processedRefresh, if_neg hcall] at h
    cases h
  rw [answerCall, hcall]

/-! ## What the host is told -/

/-- A granted request of an allocation, or its release. -/
def hostEvent (p : PortAllocation) : Event → Option Bool
  | .allocate q result => if q = p ∧ result = 0 then some true else none
  | .release q _ => if q = p then some false else none
  | .complete _ _ => none

def hostEvents (p : PortAllocation) (events : List Event) : List Bool := events.filterMap (hostEvent p)

theorem hostEvents_append (p : PortAllocation) (e e' : List Event) :
    hostEvents p (e ++ e') = hostEvents p e ++ hostEvents p e' := List.filterMap_append ..

theorem hostEvents_answerCall {t : Tracker} (h : t.WellFormed) (i : Pass) (p : PortAllocation) :
    (hostEvents p (answerCall t i).2 = [] ∧
        ((answerCall t i).1.find p).isSome = (t.find p).isSome) ∨
      (hostEvents p (answerCall t i).2 = [true] ∧ t.find p = none ∧
        ((answerCall t i).1.find p).isSome) := by
  unfold answerCall
  split
  · exact .inl ⟨rfl, rfl⟩
  · split
    · exact .inl ⟨rfl, rfl⟩
    · next call hcall q hq =>
      dsimp only [handleRequest]
      by_cases htracked : (t.find q).isSome
      · -- the call goes through, and the entry stays as it is
        simp only [if_pos htracked, if_true]
        refine .inl ⟨rfl, ?_⟩
        by_cases hpq : p = q
        · subst hpq
          rw [find_track_self, htracked]
          rfl
        · rw [find_track_of_ne h hpq]
      · simp only [if_neg htracked]
        by_cases hreply : i.reply = 0
        · simp only [if_pos hreply]
          by_cases hpq : p = q
          · subst hpq
            refine .inr ⟨by simp [hostEvents, hostEvent, hreply], by simpa using htracked, ?_⟩
            rw [find_track_self]
            rfl
          · refine .inl ⟨by simp [hostEvents, hostEvent, Ne.symm hpq], ?_⟩
            rw [find_track_of_ne h hpq]
        · simp only [if_neg hreply]
          exact .inl ⟨by simp [hostEvents, hostEvent, hreply], trivial⟩

theorem hostEvents_releases {l : List (PortAllocation × Option Int)} (hl : (l.map Prod.fst).Nodup)
    (reply : PortAllocation → Int) (p : PortAllocation) :
    hostEvents p (l.map fun e => .release e.1 (reply e.1)) =
      if p ∈ l.map Prod.fst then [false] else [] := by
  induction l with
  | nil => rfl
  | cons e l ih =>
    obtain ⟨hnotin, hnodup⟩ := List.nodup_cons.mp hl
    have ih' := ih hnodup
    rw [hostEvents] at ih' ⊢
    rw [List.map_cons, List.filterMap_cons, List.map_cons]
    by_cases hpe : e.1 = p
    · subst hpe
      simp [hostEvent, ih', hnotin]
    · have hmem : p ∈ e.1 :: l.map Prod.fst ↔ p ∈ l.map Prod.fst := by
        rw [List.mem_cons, or_iff_right (Ne.symm hpe)]
      simp only [hostEvent, if_neg hpe, ih', hmem]

theorem hostEvents_takeRefresh {t : Tracker} (h : t.WellFormed) (i : Pass) (p : PortAllocation) :
    (hostEvents p (takeRefresh t i).2 = [] ∧
        ((takeRefresh t i).1.find p).isSome = (t.find p).isSome) ∨
      (hostEvents p (takeRefresh t i).2 = [false] ∧ (t.find p).isSome ∧
        (takeRefresh t i).1.find p = none) := by
  rw [takeRefresh_events, find_takeRefresh h]
  cases processedRefresh t i with
  | none => exact .inl ⟨rfl, rfl⟩
  | some r =>
    have hnodup := OrderedMap.nodup_keys lawfulLt_portAllocation h
    have hsub : ((t.allocatedPorts.filter fun e => (refreshed r e.1 e.2).isNone).map Prod.fst).Nodup :=
      hnodup.sublist (List.filter_sublist.map _)
    have hmem : p ∈ (t.allocatedPorts.filter fun e => (refreshed r e.1 e.2).isNone).map Prod.fst ↔
        ∃ v, t.find p = some v ∧ refreshed r p v = none := by
      simp only [List.mem_map, List.mem_filter, Option.isNone_iff_eq_none, Prod.exists,
        exists_and_right, exists_eq_right, Tracker.find,
        OrderedMap.find_eq_some_iff lawfulLt_portAllocation h]
    simp only [Option.elim_some]
    rw [hostEvents_releases hsub]
    by_cases hrel : ∃ v, t.find p = some v ∧ refreshed r p v = none
    · rw [if_pos (hmem.mpr hrel)]
      obtain ⟨v, hv, hr⟩ := hrel
      exact .inr ⟨rfl, by rw [hv]; rfl, by rw [hv]; exact hr⟩
    · rw [if_neg fun hin => hrel (hmem.mp hin)]
      refine .inl ⟨rfl, ?_⟩
      cases hv : t.find p with
      | none => rfl
      | some v =>
        cases hr : refreshed r p v with
        | none => exact absurd ⟨v, hv, hr⟩ hrel
        | some w => rw [Option.bind_some, hr]; rfl

theorem hostEvents_pass {t : Tracker} (h : t.WellFormed) (i : Pass) (p : PortAllocation) :
    (hostEvents p (pass t i).2 = [] ∧ ((pass t i).1.find p).isSome = (t.find p).isSome) ∨
      (hostEvents p (pass t i).2 = [true] ∧ t.find p = none ∧ ((pass t i).1.find p).isSome) ∨
      (hostEvents p (pass t i).2 = [false] ∧ (t.find p).isSome ∧ (pass t i).1.find p = none) := by
  have hfind : (pass t i).1.find p = (takeRefresh (answerCall t i).1 i).1.find p := find_resume _ p
  have hevents : hostEvents p (pass t i).2 =
      hostEvents p (answerCall t i).2 ++ hostEvents p (takeRefresh (answerCall t i).1 i).2 :=
    hostEvents_append ..
  rw [hfind, hevents]
  cases hr : processedRefresh t i with
  | none =>
    have hsilent : (takeRefresh (answerCall t i).1 i).2 = [] := by
      rw [takeRefresh_events, processedRefresh_answerCall, hr]
      rfl
    have hsame : (takeRefresh (answerCall t i).1 i).1.find p = (answerCall t i).1.find p := by
      rw [find_takeRefresh (h.answerCall i), processedRefresh_answerCall, hr]
      rfl
    rw [hsilent, hsame]
    rcases hostEvents_answerCall h i p with ⟨he, hs⟩ | ⟨he, hn, hs⟩
    · exact .inl ⟨by rw [he]; rfl, hs⟩
    · exact .inr (.inl ⟨by rw [he]; rfl, hn, hs⟩)
  | some r =>
    rw [answerCall_of_processed hr]
    rcases hostEvents_takeRefresh h i p with ⟨he, hs⟩ | ⟨he, hs, hn⟩
    · exact .inl ⟨by rw [he]; rfl, hs⟩
    · exact .inr (.inr ⟨by rw [he]; rfl, hs, hn⟩)

/-! ## Runs -/

theorem run_concat (passes : List Pass) (i : Pass) :
    run (passes ++ [i]) = (pass (run passes) i).1 := List.foldl_concat ..

theorem wellFormed_run (passes : List Pass) : (run passes).WellFormed := by
  induction passes using List.reverseRecOn with
  | nil => exact wellFormed_init
  | append_singleton passes i ih =>
    rw [run_concat]
    exact ih.pass i

theorem history_append (passes passes' : List Pass) (t : Tracker) :
    history (passes ++ passes') t =
      history passes t ++ history passes' (passes.foldl (fun t i => (pass t i).1) t) := by
  induction passes generalizing t with
  | nil => rfl
  | cons i passes ih =>
    rw [List.cons_append, history, ih, history, List.append_assoc]
    rfl

/-- The events of a run after which the loop stands in `run passes`. -/
def events (passes : List Pass) : List Event := history passes Tracker.init

theorem events_concat (passes : List Pass) (i : Pass) :
    events (passes ++ [i]) = events passes ++ (pass (run passes) i).2 := by
  rw [events, history_append, history, history, List.append_nil]
  rfl

/-- Granted requests (`true`) and releases in turn, where `b` is the next one. -/
def Alternating : Bool → List Bool → Prop
  | _, [] => True
  | b, x :: l => x = b ∧ Alternating (!b) l

theorem alternating_concat (b : Bool) (l : List Bool) (x : Bool) :
    Alternating b (l ++ [x]) ↔ Alternating b l ∧ x = l.getLast?.elim b (!·) := by
  induction l generalizing b with
  | nil => simp [Alternating]
  | cons y l ih =>
    rw [List.cons_append, Alternating, Alternating, ih, and_assoc]
    cases l with
    | nil =>
      simp only [Alternating, List.getLast?_nil, Option.elim_none, List.getLast?_singleton,
        Option.elim_some, true_and]
      constructor <;> rintro ⟨rfl, rfl⟩ <;> exact ⟨rfl, rfl⟩
    | cons z l => simp [List.getLast?_eq_some_getLast]

theorem hostEvents_run (passes : List Pass) (p : PortAllocation) :
    Alternating true (hostEvents p (events passes)) ∧
      (((run passes).find p).isSome ↔ (hostEvents p (events passes)).getLast? = some true) := by
  induction passes using List.reverseRecOn with
  | nil => exact ⟨trivial, by simp [run, Tracker.init, Tracker.find, OrderedMap.find, events, history,
      hostEvents]⟩
  | append_singleton passes i ih =>
    obtain ⟨halt, hheld⟩ := ih
    rw [run_concat, events_concat, hostEvents_append]
    rcases hostEvents_pass (wellFormed_run passes) i p with ⟨he, hs⟩ | ⟨he, hn, hs⟩ | ⟨he, hs, hn⟩
    · rw [he, List.append_nil, hs]
      exact ⟨halt, hheld⟩
    · have hlast : (hostEvents p (events passes)).getLast? ≠ some true := by
        rw [hn] at hheld
        exact fun h => absurd (hheld.mpr h) (by simp)
      rw [he, alternating_concat, List.getLast?_concat]
      refine ⟨⟨halt, ?_⟩, by simp [hs]⟩
      cases hl : (hostEvents p (events passes)).getLast? with
      | none => rfl
      | some b =>
        cases b with
        | true => exact absurd hl hlast
        | false => rfl
    · rw [he, alternating_concat, List.getLast?_concat, hheld.mp hs, hn]
      exact ⟨⟨halt, rfl⟩, by simp⟩

def answerOf (call : BindCall) : Event → Option Int
  | .complete call' result => if call' = call then some result else none
  | _ => none

/-- What holds of every run. -/
structure Consistent (passes : List Pass) : Prop where
  /-- Granted requests and releases alternate, and begin with a request. -/
  alternate : ∀ p, Alternating true (hostEvents p (events passes))
  /-- The tracked allocations are those that were granted last. -/
  tracked : ∀ p, ((run passes).find p).isSome ↔ (hostEvents p (events passes)).getLast? = some true
  /-- A call is answered once, with 0 exactly if its allocation is held or the host grants it now. -/
  answered : ∀ q i r, passes = q ++ i :: r → ∀ call p, i.bindCall = some call →
    call.request = some p → ∃ result, (pass (run q) i).2.filterMap (answerOf call) = [result] ∧
      (result = 0 ↔ (hostEvents p (events q)).getLast? = some true ∨
        .allocate p 0 ∈ (pass (run q) i).2)

theorem pass_answer {t : Tracker} {i : Pass} {call : BindCall} {p : PortAllocation}
    (hcall : i.bindCall = some call) (hp : call.request = some p) :
    (pass t i).2 = (handleRequest t i p).2 ++ [.complete call (handleRequest t i p).1] := by
  have hsilent : (takeRefresh (answerCall t i).1 i).2 = [] := by
    rw [takeRefresh_events, processedRefresh, if_neg (by rw [hcall]; nofun)]
    rfl
  have hanswer : (answerCall t i).2 =
      (handleRequest t i p).2 ++ [.complete call (handleRequest t i p).1] := by
    simp only [answerCall, hcall, hp]
  rw [pass, hsilent, List.append_nil, hanswer]

/-- For every allocation the granted requests and the releases alternate, the tracked ones are those
granted last, and a call is answered 0 exactly if its allocation is held or granted. -/
theorem run_consistent (passes : List Pass) : Consistent passes where
  alternate p := (hostEvents_run passes p).1
  tracked p := (hostEvents_run passes p).2
  answered q i r hsplit call p hcall hp := by
    refine ⟨(handleRequest (run q) i p).1, ?_, ?_⟩
    · have hself : answerOf call (.complete call (handleRequest (run q) i p).1) =
          some (handleRequest (run q) i p).1 := if_pos rfl
      have hrequest : (handleRequest (run q) i p).2.filterMap (answerOf call) = [] := by
        unfold handleRequest
        split <;> rfl
      rw [pass_answer hcall hp, List.filterMap_append, hrequest, List.nil_append,
        List.filterMap_cons, hself]
      rfl
    · rw [← (hostEvents_run q p).2, pass_answer hcall hp, handleRequest]
      split
      · next h => simp [h]
      · next h => simp [h, eq_comm]

/-! ## Timeouts -/

/-- The call of a pass is a bind to `p` that is answered 0. -/
def Granted (t : Tracker) (i : Pass) (p : PortAllocation) : Prop :=
  ∃ call, i.bindCall = some call ∧ call.request = some p ∧ (handleRequest t i p).1 = 0

/-- After a bind to `p` that is answered 0, a snapshot that is not more than 60 seconds younger and
does not list the port does not release it, unless one in between has listed it. -/
def KeptAlive (passes : List Pass) : Prop :=
  ∀ q i r j s, passes = q ++ i :: (r ++ j :: s) → ∀ p, Granted (run q) i p →
    ∀ res, processedRefresh (run (q ++ i :: r)) j = some res → res.timestamp ≤ i.now + 60 →
      res.contains p = false →
      (∀ r₁ k r₂, r = r₁ ++ k :: r₂ → ∀ res',
        processedRefresh (run (q ++ i :: r₁)) k = some res' → res'.contains p = false) →
      false ∉ hostEvents p (pass (run (q ++ i :: r)) j).2

/-- A bind that is answered 0 is to a port that is not tracked yet, or whose timeout is at least as late
as its own would be. -/
def Fresh (t : Tracker) (i : Pass) : Prop :=
  ∀ p, Granted t i p → t.find p = none ∨ ∃ time, t.find p = some (some time) ∧ i.now + 60 ≤ time

/-- The entry of `p` is one that no snapshot up to `time` releases without having listed it. -/
def KeptUntil (time : Int) (t : Tracker) (p : PortAllocation) : Prop :=
  t.find p = none ∨ ∃ timeout, t.find p = some (some timeout) ∧ time ≤ timeout

theorem find_answerCall {t : Tracker} (h : t.WellFormed) (i : Pass) (p : PortAllocation) :
    (answerCall t i).1.find p = t.find p ∨
      t.find p = none ∧ (answerCall t i).1.find p = some (some (i.now + bindTimeoutSeconds)) := by
  unfold answerCall
  split
  · exact .inl rfl
  · split
    · exact .inl rfl
    · next call hcall q hq =>
      dsimp only
      split
      · by_cases hpq : p = q
        · subst hpq
          rw [find_track_self]
          cases hfind : t.find p with
          | none => exact .inr ⟨rfl, rfl⟩
          | some timeout => exact .inl rfl
        · exact .inl (find_track_of_ne h hpq _)
      · exact .inl rfl

theorem KeptUntil.answerCall {t : Tracker} (h : t.WellFormed) {i : Pass} {p : PortAllocation}
    {time : Int} (hkept : KeptUntil time t p) (hnow : time ≤ i.now + bindTimeoutSeconds) :
    KeptUntil time (answerCall t i).1 p := by
  rcases find_answerCall h i p with heq | ⟨-, heq⟩
  · rw [KeptUntil, heq]
    exact hkept
  · exact .inr ⟨_, heq, hnow⟩

theorem KeptUntil.pass {t : Tracker} (h : t.WellFormed) {i : Pass} {p : PortAllocation} {time : Int}
    (hkept : KeptUntil time t p) (hnow : time ≤ i.now + bindTimeoutSeconds)
    (hunlisted : ∀ r, processedRefresh t i = some r → r.contains p = false) :
    KeptUntil time (pass t i).1 p := by
  have hanswered := hkept.answerCall h hnow
  rw [KeptUntil, find_pass h]
  cases hr : processedRefresh t i with
  | none => exact hanswered
  | some r =>
    have hno := hunlisted r hr
    rcases hanswered with hnone | ⟨timeout, hsome, hle⟩
    · rw [hnone]
      exact .inl rfl
    · rw [hsome]
      simp only [Option.elim_some, Option.bind_some, refreshed, hno, Bool.false_eq_true, if_false]
      split
      · exact .inl rfl
      · exact .inr ⟨timeout, rfl, hle⟩

theorem keptUntil_of_granted {t : Tracker} {i : Pass} {p : PortAllocation} (h : t.WellFormed)
    (hgranted : Granted t i p) (hfresh : Fresh t i) : KeptUntil (i.now + 60) (pass t i).1 p := by
  obtain ⟨call, hcall, hp, hresult⟩ := hgranted
  have hanswered : (answerCall t i).1 = t.track p i.now := by
    simp only [answerCall, hcall, hp, hresult, if_true]
  have hr : processedRefresh t i = none := by
    rw [processedRefresh, if_neg (by rw [hcall]; nofun)]
  rw [KeptUntil, find_pass h, hr, Option.elim_none, hanswered, find_track_self]
  rcases hfresh p ⟨call, hcall, hp, hresult⟩ with hnone | ⟨time, hsome, hle⟩
  · rw [hnone]
    exact .inr ⟨_, rfl, le_refl _⟩
  · rw [hsome]
    exact .inr ⟨time, rfl, hle⟩

theorem keptUntil_run {q : List Pass} {i : Pass} {r : List Pass} {p : PortAllocation}
    (hgranted : Granted (run q) i p) (hfresh : Fresh (run q) i) (hclock : ∀ k ∈ r, i.now ≤ k.now)
    (hunlisted : ∀ r₁ k r₂, r = r₁ ++ k :: r₂ → ∀ res,
      processedRefresh (run (q ++ i :: r₁)) k = some res → res.contains p = false) :
    KeptUntil (i.now + 60) (run (q ++ i :: r)) p := by
  induction r using List.reverseRecOn with
  | nil =>
    rw [run_concat]
    exact keptUntil_of_granted (wellFormed_run q) hgranted hfresh
  | append_singleton r k ih =>
    have ih' := ih (fun k' hk' => hclock k' (List.mem_append_left _ hk'))
      fun r₁ k' r₂ hsplit => hunlisted r₁ k' (r₂ ++ [k]) (by simp [hsplit])
    have hnow : i.now ≤ k.now := hclock k (by simp)
    have hsplit : q ++ i :: (r ++ [k]) = (q ++ i :: r) ++ [k] := by simp
    rw [hsplit, run_concat]
    refine ih'.pass (wellFormed_run _) ?_ (hunlisted r k [] rfl)
    unfold bindTimeoutSeconds
    omega

/-- In a run whose binds are fresh, and whose clock does not go back, a port is kept for 60 seconds
after a bind. -/
theorem kept_of_fresh {passes : List Pass} (hclock : (passes.map Pass.now).Pairwise (· ≤ ·))
    (hfresh : ∀ q i r, passes = q ++ i :: r → Fresh (run q) i) : KeptAlive passes := by
  rintro q i r j s rfl p hgranted res hres htime hno hunlisted hreleased
  have hclock' : ∀ k ∈ r, i.now ≤ k.now := by
    intro k hk
    rw [List.map_append, List.map_cons, List.pairwise_append, List.pairwise_cons] at hclock
    exact hclock.2.1.1 k.now (by simp [List.mem_map_of_mem hk])
  have hkept := keptUntil_run hgranted (hfresh q i _ rfl) hclock' hunlisted
  have hfind : (pass (run (q ++ i :: r)) j).1.find p =
      ((run (q ++ i :: r)).find p).bind (refreshed res p) := by
    rw [find_pass (wellFormed_run _), hres, answerCall_of_processed hres]
    rfl
  rcases hostEvents_pass (wellFormed_run (q ++ i :: r)) j p with ⟨he, -⟩ | ⟨he, -⟩ | ⟨-, hs, hn⟩
  · rw [he] at hreleased
    cases hreleased
  · rw [he] at hreleased
    simp at hreleased
  · rcases hkept with hnone | ⟨timeout, hsome, hle⟩
    · rw [hnone] at hs
      cases hs
    · have hlate : ¬ timeout < res.timestamp := by omega
      rw [hfind, hsome, Option.bind_some, refreshed, hno, if_neg Bool.false_ne_true] at hn
      simp only [if_neg hlate] at hn
      cases hn

def port8080 : PortAllocation := ⟨{}, 8080, 2, 6⟩

/-- A bind, a snapshot that lists the port, a bind to it again, and a snapshot from before its end. -/
def reboundPasses : List Pass :=
  [{ bindCall := some ⟨some port8080, 1⟩, now := 0 }, { refresh := some ⟨[port8080], 1⟩ },
    { bindCall := some ⟨some port8080, 2⟩, now := 100 }, { refresh := some ⟨[], 100⟩ }]

/-- The port is released under the second socket, which was bound in the same second. -/
theorem rebound_port_released : ¬ ∀ passes, KeptAlive passes := by
  intro h
  have hkept := h reboundPasses (reboundPasses.take 2) { bindCall := some ⟨some port8080, 2⟩, now := 100 } []
    { refresh := some ⟨[], 100⟩ } [] rfl port8080 ⟨_, rfl, rfl, by decide⟩ ⟨[], 100⟩ rfl (by decide)
    (by decide) (fun r₁ k r₂ hr => by simp at hr)
  revert hkept
  decide

/-- A single bind is fresh. -/
theorem kept_single_bind : KeptAlive
    [{ bindCall := some ⟨some port8080, 1⟩, now := 5 }, { refresh := some ⟨[], 60⟩, now := 6 }] :=
  kept_of_fresh (by decide) fun q i r hsplit p hgranted => by
    match q, hsplit with
    | [], _ => exact .inl rfl
    | [_], hsplit =>
      obtain ⟨rfl, -⟩ := List.cons.inj (List.cons.inj hsplit).2
      obtain ⟨call, hcall, -⟩ := hgranted
      cases hcall
    | _ :: _ :: q, hsplit => simp at hsplit

end WslFreeBSD.Reference.GnsPortTracker
