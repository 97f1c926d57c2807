import WslFreeBSD.Interop.RelayPair
import WslFreeBSD.Lib.Transitions

/-!
# The relay of the three standard streams

`wsl_interop_run_io_relay` accepts a connection for each stream, forks a child for each of the two output
streams, relays the input itself, and then sets `stop_flag` and waits for the children. `stop_flag` is a local
variable: after `fork` every process has its own, and nobody sets the ones of the children.

The processes take the passes of their relays in any order. What each has written begins its stream, and the
call returns 0 only after all three relays have ended by themselves (`reaches_returned`).
-/

namespace WslFreeBSD.Interop.IoRelay

open Lib RelayPair

inductive Stream where
  | stdin
  | stdout
  | stderr
  deriving DecidableEq

/-- The relay of a stream, and when it has returned, what it had come to and its last pass. -/
structure Copier where
  relay : Relay
  ended : Option (Relay × Pass) := none

/-- Where the call is. `reaping` has the result that is returned in the end. -/
inductive Phase where
  | accepting (s : Stream)
  | forking (s : Stream)
  | relaying
  | reaping (s : Stream) (result : Int)
  | returned (result : Int)

/-- The call and the children. `stopFlag` is the variable of the process that relays a stream; that of `stdin`
is the one of the caller. `nets` are the connections that the caller has open. -/
structure World where
  phase : Phase := .accepting .stdin
  listening : Bool := true
  nets : List Stream := []
  stopFlag : Stream → Bool := fun _ => false
  copiers : Stream → Option Copier := fun _ => none

inductive Act where
  /-- `wsl_interop_accept_one_io`. -/
  | accept (ok : Bool)
  | fork (ok : Bool)
  /-- A pass of the loop of `wsl_interop_relay_pair`. -/
  | pass (s : Stream) (i : Pass)
  /-- `waitpid`. -/
  | reap

namespace World

/-- The process for a stream begins to relay it, with a copy of the variable. -/
def relayStream (streams : Stream → Bytes) (w : World) (s : Stream) : World :=
  { w with
    stopFlag := Function.update w.stopFlag s (w.stopFlag .stdin)
    copiers := Function.update w.copiers s (some { relay := { source := streams s } }) }

def setCopier (w : World) (s : Stream) (c : Copier) : World :=
  { w with copiers := Function.update w.copiers s (some c) }

def setStop (w : World) : World := { w with stopFlag := Function.update w.stopFlag .stdin true }

def look (w : World) (s : Stream) (i : Pass) : Pass := { i with stop := w.stopFlag s, stopIdle := w.stopFlag s }

def step (streams : Stream → Bytes) (w : World) : Act → Option World
  | .accept ok =>
    match w.phase with
    | .accepting s =>
      if ok then
        match s with
        | .stdin => some { w with phase := .accepting .stdout, nets := [.stdin] }
        | .stdout => some { w with phase := .accepting .stderr, nets := [.stdin, .stdout] }
        | .stderr =>
          some { w with phase := .forking .stdout, nets := [.stdin, .stdout, .stderr], listening := false }
      else some { w with phase := .returned (-1), nets := [] }
    | _ => none
  | .fork ok =>
    match w.phase with
    | .forking .stdout =>
      if ok then some { w.relayStream streams .stdout with phase := .forking .stderr }
      else some { w with phase := .returned (-1), nets := [] }
    | .forking .stderr =>
      if ok then some { (w.relayStream streams .stderr).relayStream streams .stdin with phase := .relaying }
      else some { w.setStop with phase := .reaping .stdout (-1) }
    | _ => none
  | .pass s i =>
    match w.copiers s with
    | some ⟨r, none⟩ =>
      match RelayPair.pass r (w.look s i) with
      | .inl r' => some (w.setCopier s ⟨r', none⟩)
      | .inr r' =>
        let w' := w.setCopier s ⟨r', some (r, i)⟩
        if s = .stdin then some { w'.setStop with phase := .reaping .stdout 0, nets := [] } else some w'
    | _ => none
  | .reap =>
    match w.phase with
    | .reaping s result =>
      match w.copiers s with
      | some ⟨_, some _⟩ =>
        if s = .stdout ∧ result = 0 then some { w with phase := .reaping .stderr 0 }
        else some { w with phase := .returned result, nets := [] }
      | _ => none
    | _ => none

end World

/-! ## One relay -/

/-- The pass ends the relay, whatever the flag is: `poll` fails or reports a hang-up, the stream has ended, or a
`read` or `write` fails. -/
def EndsAlone (r : Relay) (i : Pass) : Prop :=
  i.poll = .failed ∨ (∃ input, i.poll = .ready true input) ∨
    i.poll = .ready false true ∧ (i.read = .failed ∨
      ∃ n, i.read = .upTo n ∧ (r.source = [] ∨ (writeLoop retries i.writes (chunk r.source i.read)).2 = false))

theorem endsAlone_of_pass {r r' : Relay} {i : Pass}
    (h : pass r { i with stop := false, stopIdle := false } = .inr r') : EndsAlone r i := by
  unfold RelayPair.pass at h
  rw [if_neg (by simp)] at h
  cases hpoll : i.poll with
  | failed => exact .inl hpoll
  | interrupted =>
    simp only [hpoll] at h
    cases h
  | timeout =>
    simp only [hpoll] at h
    cases h
  | ready hup input =>
    cases hup with
    | true => exact .inr (.inl ⟨input, hpoll⟩)
    | false =>
      cases input with
      | false =>
        simp only [hpoll] at h
        cases h
      | true =>
        refine .inr (.inr ⟨hpoll, ?_⟩)
        simp only [hpoll, Bool.false_eq_true, if_false, if_true, readable] at h
        cases hread : i.read with
        | failed => exact .inl rfl
        | wouldBlock =>
          simp only [hread] at h
          cases h
        | interrupted =>
          simp only [hread] at h
          cases h
        | upTo n =>
          refine .inr ⟨n, rfl, ?_⟩
          simp only [hread] at h
          split at h
          · rename_i hsource
            exact .inl hsource
          · split at h
            · cases h
            · rename_i hcut
              exact .inr (Bool.eq_false_iff.mpr hcut)

theorem written_of_pass {r r' : Relay} {i : Pass} {stream : Bytes} (h : r.written ++ r.source = stream)
    (hr : pass r i = .inr r') : r'.written <+: stream := by
  have hsame : r.written <+: stream := ⟨_, h⟩
  have hmore : ∀ (resume : WriteResult → Bool) (data : Bytes), data <+: r.source →
      r.written ++ (writeLoop resume i.writes data).1 <+: stream := by
    intro resume data hdata
    rw [← h]
    exact (List.prefix_append_right_inj _).mpr ((writeLoop_begins _ _).trans hdata)
  unfold RelayPair.pass at hr
  split at hr
  · cases hr
    exact hsame
  split at hr
  · cases hr
  · cases hr
    exact hsame
  · split at hr <;> cases hr
    exact hsame
  · split at hr
    · cases hr
      exact hmore _ _ (chunk_begins _ _)
    · split at hr
      · unfold readable at hr
        split at hr
        · cases hr
        · cases hr
        · cases hr
          exact hsame
        · split at hr
          · cases hr
            exact hsame
          · dsimp only at hr
            split at hr <;> cases hr
            exact hmore _ _ (chunk_begins _ _)
      · cases hr

/-! ## All processes -/

namespace World

variable {streams : Stream → Bytes} {w w' : World}

def Ended (w : World) (s : Stream) : Prop := ∃ c e, w.copiers s = some c ∧ c.ended = some e

/-- What the processes have done, and what they see of `stop_flag`. -/
structure Copied (streams : Stream → Bytes) (stopFlag : Stream → Bool) (copiers : Stream → Option Copier) :
    Prop where
  carried : ∀ s c, copiers s = some c → c.relay.written <+: streams s ∧
    (c.ended = none → c.relay.written ++ c.relay.source = streams s)
  alone : ∀ s c r i, copiers s = some c → c.ended = some (r, i) → EndsAlone r i
  children : ∀ s, s ≠ .stdin → stopFlag s = false
  caller : stopFlag .stdin = true → ∀ c, copiers .stdin = some c → c.ended.isSome = true

def Fits (w : World) : Phase → Prop
  | .accepting _ | .forking _ => w.stopFlag .stdin = false ∧ w.copiers .stdin = none
  | .relaying => w.stopFlag .stdin = false
  | .reaping .stdin _ => False
  | .reaping .stdout result => result = 0 → w.Ended .stdin
  | .reaping .stderr result => result = 0 → w.Ended .stdin ∧ w.Ended .stdout
  | .returned result => w.nets = [] ∧ (result = 0 → ∀ s, w.Ended s)

theorem copiers_setCopier (s t : Stream) (c : Copier) :
    (w.setCopier s c).copiers t = if t = s then some c else w.copiers t := Function.update_apply ..

theorem Copied.relayStream (h : Copied streams w.stopFlag w.copiers) {s : Stream}
    (hflag : w.stopFlag .stdin = false) :
    Copied streams (w.relayStream streams s).stopFlag (w.relayStream streams s).copiers := by
  have hcopiers : ∀ t, (w.relayStream streams s).copiers t =
      if t = s then some { relay := { source := streams s } } else w.copiers t :=
    fun t => Function.update_apply ..
  have hflags : ∀ t, (w.relayStream streams s).stopFlag t = true → w.stopFlag t = true := by
    intro t ht
    have ht := (Function.update_apply ..).symm.trans ht
    split at ht
    · rw [hflag] at ht
      cases ht
    · exact ht
  refine ⟨fun t c hc => ?_, fun t c r i hc hend => ?_, fun t ht => ?_, fun hset => ?_⟩
  · rw [hcopiers] at hc
    split at hc
    · rename_i heq
      cases hc
      exact ⟨List.nil_prefix, fun _ => by rw [heq]; rfl⟩
    · exact h.carried t c hc
  · rw [hcopiers] at hc
    split at hc
    · cases hc
      cases hend
    · exact h.alone t c r i hc hend
  · rw [Bool.eq_false_iff]
    exact fun hset => Bool.eq_false_iff.mp (h.children t ht) (hflags t hset)
  · exact absurd (hflags _ hset) (Bool.eq_false_iff.mp hflag)

theorem Copied.look_eq (h : Copied streams w.stopFlag w.copiers) {s : Stream} {r : Relay}
    (hc : w.copiers s = some ⟨r, none⟩) (i : Pass) :
    w.look s i = { i with stop := false, stopIdle := false } := by
  have hflag : w.stopFlag s = false := by
    by_cases hs : s = .stdin
    · subst hs
      rw [Bool.eq_false_iff]
      intro hset
      have hend := h.caller hset _ hc
      cases hend
    · exact h.children s hs
  rw [look, hflag]

theorem Copied.pass (h : Copied streams w.stopFlag w.copiers) {s : Stream} {r r' : Relay}
    {e : Option (Relay × Pass)} (hc : w.copiers s = some ⟨r, none⟩) (hwritten : r'.written <+: streams s)
    (hmore : e = none → r'.written ++ r'.source = streams s)
    (halone : ∀ r₀ i₀, e = some (r₀, i₀) → EndsAlone r₀ i₀) :
    Copied streams w.stopFlag (w.setCopier s ⟨r', e⟩).copiers := by
  refine ⟨fun t c ht => ?_, fun t c r₀ i₀ ht hend => ?_, h.children, fun hset c ht => ?_⟩
  · rw [copiers_setCopier] at ht
    split at ht
    · rename_i heq
      cases ht
      rw [heq]
      exact ⟨hwritten, hmore⟩
    · exact h.carried t c ht
  · rw [copiers_setCopier] at ht
    split at ht
    · cases ht
      exact halone r₀ i₀ hend
    · exact h.alone t c r₀ i₀ ht hend
  · rw [copiers_setCopier] at ht
    split at ht
    · rename_i heq
      subst heq
      cases (h.caller hset _ hc)
    · exact h.caller hset c ht

theorem Ended.setCopier {s t : Stream} {r : Relay} {c : Copier} (hc : w.copiers s = some ⟨r, none⟩)
    (h : w.Ended t) : (w.setCopier s c).Ended t := by
  obtain ⟨c', e, ht, hend⟩ := h
  have hne : t ≠ s := by
    rintro rfl
    cases hc.symm.trans ht
    cases hend
  exact ⟨c', e, by rw [copiers_setCopier, if_neg hne, ht], hend⟩

theorem Fits.setCopier {s : Stream} {r : Relay} {c : Copier} (hc : w.copiers s = some ⟨r, none⟩) {p : Phase}
    (h : w.Fits p) : (w.setCopier s c).Fits p := by
  have hother : w.copiers .stdin = none → (w.setCopier s c).copiers .stdin = none := by
    intro hnone
    rw [copiers_setCopier, if_neg, hnone]
    rintro rfl
    cases hnone.symm.trans hc
  cases p with
  | accepting t => exact ⟨h.1, hother h.2⟩
  | forking t => exact ⟨h.1, hother h.2⟩
  | relaying => exact h
  | reaping t result =>
    cases t with
    | stdin => exact h
    | stdout => exact fun hr => (h hr).setCopier hc
    | stderr => exact fun hr => ⟨(h hr).1.setCopier hc, (h hr).2.setCopier hc⟩
  | returned result => exact ⟨h.1, fun hr t => (h.2 hr t).setCopier hc⟩

structure Sound (streams : Stream → Bytes) (w : World) : Prop where
  copied : Copied streams w.stopFlag w.copiers
  fits : w.Fits w.phase

theorem sound_pass (h : Sound streams w) {s : Stream} {i : Pass}
    (hstep : step streams w (.pass s i) = some w') : Sound streams w' := by
  simp only [step] at hstep
  split at hstep
  · rename_i r hc
    obtain ⟨hwritten, hmore⟩ := h.copied.carried s _ hc
    rw [h.copied.look_eq hc] at hstep
    split at hstep
    · rename_i r' hr
      cases hstep
      have hnext := (pass_inl (hmore rfl) hr).1
      exact ⟨h.copied.pass hc ⟨_, hnext⟩ (fun _ => hnext) (by rintro r₀ i₀ ⟨⟩), h.fits.setCopier hc⟩
    · rename_i r' hr
      have hcopied : Copied streams w.stopFlag (w.setCopier s ⟨r', some (r, i)⟩).copiers := by
        refine h.copied.pass hc (written_of_pass (hmore rfl) hr) (by rintro ⟨⟩) fun r₀ i₀ heq => ?_
        cases heq
        exact endsAlone_of_pass hr
      split at hstep <;> cases hstep
      · rename_i hs
        subst hs
        have hended : (w.setCopier .stdin ⟨r', some (r, i)⟩).Ended .stdin :=
          ⟨_, _, by rw [copiers_setCopier, if_pos rfl], rfl⟩
        refine ⟨⟨hcopied.carried, hcopied.alone, fun t ht => ?_, fun _ c hc' => ?_⟩, fun _ => hended⟩
        · exact (Function.update_of_ne ht ..).trans (hcopied.children t ht)
        · obtain ⟨c₁, e, hc₁, hend⟩ := hended
          cases hc₁.symm.trans hc'
          rw [hend]
          rfl
      · exact ⟨hcopied, h.fits.setCopier hc⟩
  · cases hstep

theorem sound_reap (h : Sound streams w) (hstep : step streams w .reap = some w') : Sound streams w' := by
  simp only [step] at hstep
  split at hstep
  · rename_i s result hp
    have hfits := h.fits
    rw [hp] at hfits
    split at hstep
    · rename_i r e hc
      have hended : w.Ended s := ⟨_, e, hc, rfl⟩
      split at hstep <;> cases hstep
      · rename_i hout
        obtain ⟨rfl, rfl⟩ := hout
        exact ⟨h.copied, fun _ => ⟨hfits rfl, hended⟩⟩
      · rename_i hout
        refine ⟨h.copied, rfl, fun hr t => ?_⟩
        cases s with
        | stdin => exact hfits.elim
        | stdout => exact absurd ⟨rfl, hr⟩ hout
        | stderr =>
          cases t with
          | stdin => exact (hfits hr).1
          | stdout => exact (hfits hr).2
          | stderr => exact hended
    · cases hstep
  · cases hstep

theorem sound_step (h : Sound streams w) {a : Act} (hstep : step streams w a = some w') : Sound streams w' := by
  obtain ⟨hcopied, hfits⟩ := h
  have hfailed : (-1 : Int) = 0 → ∀ s, w.Ended s := fun h => absurd h (by decide)
  cases a with
  | accept ok =>
    simp only [step] at hstep
    split at hstep
    · rename_i s hp
      rw [hp] at hfits
      split at hstep
      · cases s <;> cases hstep
        all_goals exact ⟨hcopied, hfits⟩
      · cases hstep
        exact ⟨hcopied, rfl, hfailed⟩
    · cases hstep
  | fork ok =>
    simp only [step] at hstep
    split at hstep
    · rename_i hp
      rw [hp] at hfits
      split at hstep <;> cases hstep
      · exact ⟨hcopied.relayStream (s := .stdout) hfits.1, hfits⟩
      · exact ⟨hcopied, rfl, hfailed⟩
    · rename_i hp
      rw [hp] at hfits
      split at hstep <;> cases hstep
      · exact ⟨(hcopied.relayStream (s := .stderr) hfits.1).relayStream (s := .stdin) hfits.1, hfits.1⟩
      · refine ⟨⟨hcopied.carried, hcopied.alone, fun t ht => ?_, fun _ c hc => ?_⟩, by rintro ⟨⟩⟩
        · exact (Function.update_of_ne ht ..).trans (hcopied.children t ht)
        · cases hfits.2.symm.trans hc
    · cases hstep
  | pass s i => exact sound_pass ⟨hcopied, hfits⟩ hstep
  | reap => exact sound_reap ⟨hcopied, hfits⟩ hstep

theorem sound_start : Sound streams {} where
  copied := ⟨by rintro s c ⟨⟩, by rintro s c r i ⟨⟩, fun _ _ => rfl, by rintro ⟨⟩⟩
  fits := ⟨rfl, rfl⟩

/-- Every relay writes a beginning of its own stream; whatever the call returns, the connections are closed; and
it returns 0 only when the three relays have ended by themselves: no child is ever stopped. -/
theorem reaches_returned (h : Reaches (step streams) (fun _ _ => True) {} w) :
    (∀ s c, w.copiers s = some c → c.relay.written <+: streams s) ∧
      ∀ result, w.phase = .returned result → w.nets = [] ∧
        (result = 0 → ∀ s, ∃ c r i, w.copiers s = some c ∧ c.ended = some (r, i) ∧ EndsAlone r i) := by
  have hsound : Sound streams w := h.invariant sound_start fun _ _ _ hw _ hstep => sound_step hw hstep
  refine ⟨fun s c hc => (hsound.copied.carried s c hc).1, fun result hp => ?_⟩
  have hfits := hsound.fits
  rw [hp] at hfits
  refine ⟨hfits.1, fun hr s => ?_⟩
  obtain ⟨c, ⟨r, i⟩, hc, hend⟩ := hfits.2 hr s
  exact ⟨c, r, i, hc, hend, hsound.copied.alone s c r i hc hend⟩

/-- The host closes each connection, and the outputs are closed. -/
def closing : List Act :=
  [.accept true, .accept true, .accept true, .fork true, .fork true, .pass .stdin { poll := .ready true true },
    .pass .stdout { poll := .ready true true }, .reap, .pass .stderr { poll := .ready true true }, .reap]

theorem closing_isSome : (closing.foldlM (step fun _ => []) {}).isSome := by decide

theorem reaches_returned_closing :
    ((closing.foldlM (step fun _ => []) {}).get closing_isSome).nets = [] :=
  ((reaches_returned (Reaches.start.foldlM (fun _ _ _ => trivial) (Option.some_get closing_isSome).symm)).2 0
    rfl).1

end World

end WslFreeBSD.Interop.IoRelay
