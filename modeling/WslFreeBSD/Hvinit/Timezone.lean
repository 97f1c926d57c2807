import WslFreeBSD.Hvinit.Network
import WslFreeBSD.Lib.Interpret

/-!
# Updates of the time zone

`timezone_apply` with what it returns, on the two files that it changes. The link `/etc/localtime`
is removed and made again before `/etc/timezone` is opened, and nothing is put back when one of the
later calls fails. `timezoneApply_atomic_iff` says in which cases a failure leaves the files as they
were.
-/

namespace WslFreeBSD.Hvinit

open Lib Protocol

/-! ## The code -/

/-- `timezone_apply` with its result. -/
def timezoneApplyResult (timezone : Option Bytes) (autoUpdate : Bool) : InitProgram Int :=
  if ¬ autoUpdate then pure 0
  else match nonEmpty timezone with
    | none => pure 0
    | some zone =>
      let target := TZ_ZONEINFO_BASE ++ zone
      if 256 ≤ target.length then pure (-1)
      else do
        let found ← Program.perform (Op.access target)
        if ¬ found then pure (-1)
        else
          -- a failure is only logged
          Program.perform (Op.unlink TZ_LOCALTIME_FILE)
          let linked ← Program.perform (Op.symlink target TZ_LOCALTIME_FILE)
          if ¬ linked then pure (-1)
          else
            let out : FileWritten ← Program.perform (Op.writeFile TZ_SETTING_FILE (zone ++ [10]))
            if out = .notOpened then pure (-1)
            else
              Program.perform (Op.setenv (ascii "TZ") zone)
              pure 0

/-- What `/etc/localtime` is. -/
inductive LocaltimeEntry where
  | link (target : Bytes)
  | file (contents : Bytes)
  deriving DecidableEq, Repr

/-- `/etc/localtime`, and the contents of `/etc/timezone`. -/
structure ZoneFiles where
  localtime : Option LocaltimeEntry
  timezone : Option Bytes
  deriving DecidableEq, Repr

/-- The calls that fail. -/
structure ZoneFaults where
  access : Bool
  unlink : Bool
  symlink : Bool
  fopen : Bool
  deriving DecidableEq, Repr

/-- The calls on the two files; a link is not made over an entry that is there. -/
def zoneStep (faults : ZoneFaults) : (e : Op) → ZoneFiles → e.Answer × ZoneFiles
  | .access _, fs => (! faults.access, fs)
  | .unlink path, fs =>
    ((), if path = TZ_LOCALTIME_FILE ∧ faults.unlink = false then { fs with localtime := none } else fs)
  | .symlink target path, fs =>
    if path = TZ_LOCALTIME_FILE ∧ fs.localtime = none ∧ faults.symlink = false then
      (true, { fs with localtime := some (.link target) })
    else (false, fs)
  | .writeFile path contents, fs =>
    if path = TZ_SETTING_FILE ∧ faults.fopen = false then
      (.written, { fs with timezone := some contents })
    else (.notOpened, fs)
  | e, fs => (plainEnvironment [] e, fs)

/-- `timezone_apply` on the two files. -/
def applyZone (faults : ZoneFaults) (timezone : Option Bytes) (autoUpdate : Bool) (fs : ZoneFiles) :
    Int × ZoneFiles :=
  (timezoneApplyResult timezone autoUpdate).interpret (zoneStep faults) fs

/-- The program of the event loop is `timezone_apply` without its result. -/
theorem timezoneApply_eq (timezone : Option Bytes) (autoUpdate : Bool) :
    timezoneApply timezone autoUpdate =
      timezoneApplyResult timezone autoUpdate >>= fun _ => pure () := by
  unfold timezoneApply timezoneApplyResult
  cases nonEmpty timezone with
  | none => cases autoUpdate <;> rfl
  | some zone =>
    cases autoUpdate with
    | false => rfl
    | true =>
      change (if ¬ (true = true) ∨ 256 ≤ (TZ_ZONEINFO_BASE ++ zone).length then _ else _) =
        (if 256 ≤ (TZ_ZONEINFO_BASE ++ zone).length then _ else _) >>= _
      by_cases hlen : 256 ≤ (TZ_ZONEINFO_BASE ++ zone).length
      · rw [if_pos (Or.inr hlen), if_pos hlen]
        rfl
      · rw [if_neg (by simpa using hlen), if_neg hlen]
        refine congrArg (Program.call (Op.access (TZ_ZONEINFO_BASE ++ zone))) (funext fun found => ?_)
        cases found with
        | false => rfl
        | true =>
          refine congrArg (Program.call (Op.unlink TZ_LOCALTIME_FILE)) (funext fun _ => ?_)
          refine congrArg (Program.call (Op.symlink (TZ_ZONEINFO_BASE ++ zone) TZ_LOCALTIME_FILE))
            (funext fun linked => ?_)
          cases linked with
          | false => rfl
          | true =>
            refine congrArg (Program.call (Op.writeFile TZ_SETTING_FILE (zone ++ [10])))
              (funext fun out => ?_)
            cases out <;> rfl

/-! ## The two files -/

/-- The zone that an update reaches, when it comes to the files. -/
def reachedZone (faults : ZoneFaults) (timezone : Option Bytes) (autoUpdate : Bool) : Option Bytes :=
  (nonEmpty timezone).filter fun zone =>
    autoUpdate && decide ((TZ_ZONEINFO_BASE ++ zone).length < 256) && ! faults.access

def unlinked (faults : ZoneFaults) (fs : ZoneFiles) : ZoneFiles :=
  if faults.unlink then fs else { fs with localtime := none }

theorem applyZone_untouched {faults : ZoneFaults} {timezone : Option Bytes} {autoUpdate : Bool}
    (h : reachedZone faults timezone autoUpdate = none) (fs : ZoneFiles) :
    (applyZone faults timezone autoUpdate fs).2 = fs := by
  unfold reachedZone at h
  unfold applyZone timezoneApplyResult
  cases autoUpdate with
  | false => rfl
  | true =>
    rw [if_neg (by simp)]
    cases hzone : nonEmpty timezone with
    | none => rfl
    | some zone =>
      rw [hzone] at h
      simp only
      split
      · rfl
      · next hlen =>
        have haccess : faults.access = true := by
          have hshort := Nat.lt_of_not_le hlen
          rw [Option.filter_some, Bool.true_and, decide_eq_true hshort, Bool.true_and] at h
          simpa using h
        rw [Program.interpret_bind, Program.interpret_perform, zoneStep, haccess]
        rfl

theorem applyZone_reached {faults : ZoneFaults} {timezone : Option Bytes} {autoUpdate : Bool}
    {zone : Bytes} (h : reachedZone faults timezone autoUpdate = some zone) (fs : ZoneFiles) :
    applyZone faults timezone autoUpdate fs =
      if (unlinked faults fs).localtime = none ∧ faults.symlink = false then
        if faults.fopen then
          (-1, { unlinked faults fs with localtime := some (.link (TZ_ZONEINFO_BASE ++ zone)) })
        else
          (0, { localtime := some (.link (TZ_ZONEINFO_BASE ++ zone)), timezone := some (zone ++ [10]) })
      else (-1, unlinked faults fs) := by
  obtain ⟨hzone, hreach⟩ := Option.filter_eq_some_iff.mp h
  rw [Bool.and_eq_true, Bool.and_eq_true, decide_eq_true_eq, Bool.not_eq_true'] at hreach
  obtain ⟨⟨rfl, hlen⟩, haccess⟩ := hreach
  unfold applyZone timezoneApplyResult
  rw [if_neg (by simp), hzone]
  simp only
  rw [if_neg (Nat.not_le.mpr hlen), Program.interpret_bind, Program.interpret_perform, zoneStep, haccess]
  have hunlink : zoneStep faults (.unlink TZ_LOCALTIME_FILE) fs = ((), unlinked faults fs) := by
    unfold zoneStep unlinked
    cases faults.unlink <;> rfl
  rw [if_neg (by simp), Program.interpret_bind, Program.interpret_perform, hunlink,
    Program.interpret_bind, Program.interpret_perform]
  by_cases hlink : (unlinked faults fs).localtime = none ∧ faults.symlink = false
  · have hsymlink : zoneStep faults (.symlink (TZ_ZONEINFO_BASE ++ zone) TZ_LOCALTIME_FILE)
        (unlinked faults fs) =
        (true, { unlinked faults fs with localtime := some (.link (TZ_ZONEINFO_BASE ++ zone)) }) :=
      if_pos ⟨rfl, hlink⟩
    rw [hsymlink, if_pos hlink, if_neg (by simp), Program.interpret_bind, Program.interpret_perform]
    cases hfopen : faults.fopen with
    | true =>
      have hwrite : ∀ contents fs', zoneStep faults (.writeFile TZ_SETTING_FILE contents) fs' =
          (.notOpened, fs') := fun _ _ => if_neg (by simp [hfopen])
      rw [hwrite, if_pos rfl]
      rfl
    | false =>
      have hwrite : ∀ contents fs', zoneStep faults (.writeFile TZ_SETTING_FILE contents) fs' =
          (.written, { fs' with timezone := some contents }) := fun _ _ => if_pos ⟨rfl, hfopen⟩
      rw [hwrite, if_neg (by simp)]
      rfl
  · have hsymlink : zoneStep faults (.symlink (TZ_ZONEINFO_BASE ++ zone) TZ_LOCALTIME_FILE)
        (unlinked faults fs) = (false, unlinked faults fs) := if_neg fun h => hlink h.2
    rw [hsymlink, if_neg hlink]
    rfl

/-! ## Failures -/

def DifferentZones (fs : ZoneFiles) : Prop :=
  ∃ zone zone', fs.localtime = some (.link (TZ_ZONEINFO_BASE ++ zone)) ∧
    fs.timezone = some (zone' ++ [10]) ∧ zone ≠ zone'

/-- A failure leaves the files as they were, and the files do not come to name two zones. -/
def AtomicUpdate (faults : ZoneFaults) (timezone : Option Bytes) (autoUpdate : Bool) (fs : ZoneFiles) :
    Prop :=
  ((applyZone faults timezone autoUpdate fs).1 = -1 → (applyZone faults timezone autoUpdate fs).2 = fs) ∧
    (DifferentZones (applyZone faults timezone autoUpdate fs).2 → DifferentZones fs)

/-- Once the files are reached, the calls that are left do not fail; except that the link cannot be
made, and there was none or it could not be removed, or that the setting cannot be opened, and the
link was the same before. -/
def FailuresEarly (faults : ZoneFaults) (timezone : Option Bytes) (autoUpdate : Bool) (fs : ZoneFiles) :
    Prop :=
  ∀ zone, reachedZone faults timezone autoUpdate = some zone →
    match fs.localtime with
    | none => faults.symlink = true ∨ faults.fopen = false
    | some entry => faults.unlink = true ∨
        faults.symlink = false ∧ (faults.fopen = false ∨ entry = .link (TZ_ZONEINFO_BASE ++ zone))

theorem sameZones (zone : Bytes) : ¬ DifferentZones
    { localtime := some (.link (TZ_ZONEINFO_BASE ++ zone)), timezone := some (zone ++ [10]) } := by
  rintro ⟨z, z', hlink, hsetting, hne⟩
  have hz := List.append_cancel_left (LocaltimeEntry.link.inj (Option.some.inj hlink))
  have hz' := List.append_cancel_right (Option.some.inj hsetting)
  exact hne (hz.symm.trans hz')

section Outcomes

variable {faults : ZoneFaults} {timezone : Option Bytes} {autoUpdate : Bool} {fs fs' : ZoneFiles}

theorem atomicUpdate_of_failed (h : applyZone faults timezone autoUpdate fs = (-1, fs')) :
    AtomicUpdate faults timezone autoUpdate fs ↔ fs' = fs := by
  rw [AtomicUpdate, h]
  exact ⟨fun hatomic => hatomic.1 rfl, fun heq => ⟨fun _ => heq, fun hd => heq ▸ hd⟩⟩

theorem atomicUpdate_of_done {zone : Bytes} (h : applyZone faults timezone autoUpdate fs =
    (0, { localtime := some (.link (TZ_ZONEINFO_BASE ++ zone)), timezone := some (zone ++ [10]) })) :
    AtomicUpdate faults timezone autoUpdate fs := by
  rw [AtomicUpdate, h]
  exact ⟨fun hret => absurd hret (by simp), fun hd => absurd hd (sameZones zone)⟩

theorem failuresEarly_of_reached {zone : Bytes} (h : reachedZone faults timezone autoUpdate = some zone) :
    FailuresEarly faults timezone autoUpdate fs ↔
      match fs.localtime with
      | none => faults.symlink = true ∨ faults.fopen = false
      | some entry => faults.unlink = true ∨
          faults.symlink = false ∧ (faults.fopen = false ∨ entry = .link (TZ_ZONEINFO_BASE ++ zone)) := by
  refine ⟨fun hearly => hearly zone h, fun hearly zone' hzone' => ?_⟩
  obtain rfl : zone = zone' := Option.some.inj (h.symm.trans hzone')
  exact hearly

/-- Once the name of the link is free, what is left are the calls of `symlink` and `fopen`. -/
theorem atomicUpdate_of_free {zone : Bytes} (h : reachedZone faults timezone autoUpdate = some zone)
    (hfree : unlinked faults fs = ⟨none, fs.timezone⟩) :
    AtomicUpdate faults timezone autoUpdate fs ↔
      faults.symlink = true ∧ fs.localtime = none ∨
        faults.symlink = false ∧
          (faults.fopen = false ∨ fs.localtime = some (.link (TZ_ZONEINFO_BASE ++ zone))) := by
  have happly := applyZone_reached h fs
  obtain ⟨localtime, setting⟩ := fs
  rw [hfree] at happly
  cases hsymlink : faults.symlink with
  | true =>
    rw [if_neg fun hlink => Bool.false_ne_true (hlink.2.symm.trans hsymlink)] at happly
    rw [atomicUpdate_of_failed happly]
    constructor
    · intro heq
      exact Or.inl ⟨rfl, (congrArg ZoneFiles.localtime heq).symm⟩
    · rintro (⟨-, hnone⟩ | ⟨hlink, -⟩)
      · exact congrArg (ZoneFiles.mk · setting) hnone.symm
      · cases hlink
  | false =>
    rw [if_pos ⟨rfl, hsymlink⟩] at happly
    cases hfopen : faults.fopen with
    | true =>
      rw [if_pos hfopen] at happly
      rw [atomicUpdate_of_failed happly]
      constructor
      · intro heq
        exact Or.inr ⟨rfl, Or.inr (congrArg ZoneFiles.localtime heq).symm⟩
      · rintro (⟨hlink, -⟩ | ⟨-, hopen | hsame⟩)
        · cases hlink
        · cases hopen
        · exact congrArg (ZoneFiles.mk · setting) hsame.symm
    | false =>
      rw [if_neg fun hopen => Bool.false_ne_true (hfopen.symm.trans hopen)] at happly
      exact iff_of_true (atomicUpdate_of_done happly) (Or.inr ⟨rfl, Or.inl rfl⟩)

end Outcomes

theorem timezoneApply_atomic_iff (faults : ZoneFaults) (timezone : Option Bytes) (autoUpdate : Bool)
    (fs : ZoneFiles) :
    AtomicUpdate faults timezone autoUpdate fs ↔ FailuresEarly faults timezone autoUpdate fs := by
  cases hreach : reachedZone faults timezone autoUpdate with
  | none =>
    have hkept := applyZone_untouched hreach fs
    refine iff_of_true ⟨fun _ => hkept, fun hd => hkept ▸ hd⟩ fun zone hzone => ?_
    rw [hreach] at hzone
    cases hzone
  | some zone =>
    rw [failuresEarly_of_reached hreach]
    obtain ⟨localtime, setting⟩ := fs
    cases localtime with
    | none =>
      have hfree : unlinked faults ⟨none, setting⟩ = ⟨none, setting⟩ := ite_self _
      rw [atomicUpdate_of_free hreach hfree]
      cases faults.symlink <;> simp
    | some entry =>
      cases hunlink : faults.unlink with
      | true =>
        -- the entry stays, and no link can be made over it
        have happly := applyZone_reached hreach ⟨some entry, setting⟩
        have hsame : unlinked faults ⟨some entry, setting⟩ = ⟨some entry, setting⟩ := if_pos hunlink
        rw [hsame, if_neg (by simp)] at happly
        exact iff_of_true ((atomicUpdate_of_failed happly).mpr rfl) (Or.inl rfl)
      | false =>
        have hfree : unlinked faults ⟨some entry, setting⟩ = ⟨none, setting⟩ := if_neg (by simp [hunlink])
        rw [atomicUpdate_of_free hreach hfree]
        cases faults.symlink <;> simp

/-- The link is removed, and the new one cannot be made. -/
theorem timezoneApply_not_atomic :
    ¬ ∀ (faults : ZoneFaults) (timezone : Option Bytes) (autoUpdate : Bool) (fs : ZoneFiles),
      AtomicUpdate faults timezone autoUpdate fs := by
  intro h
  have hfailed := (h ⟨false, false, true, false⟩ (some (ascii "Asia/Shanghai")) true
    ⟨some (.link (ascii "/usr/share/zoneinfo/UTC")), some (ascii "UTC\n")⟩).1
  exact absurd (hfailed (by decide)) (by decide)

end WslFreeBSD.Hvinit
