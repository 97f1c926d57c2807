import WslFreeBSD.Stub.Faults
import WslFreeBSD.Stub.Tidy

/-!
# What the requests do to the fids of the stub file server

Nothing looks whether a fid that is added is in use; a walk closes neither the last directory on its way
nor any other descriptor when it ends early; and a directory that cannot be read keeps the duplicate of
its descriptor.

`RequestTidy` says of a request, in the state in which it is handled, that none of this happens. Then
the table and the descriptors fit together behind it if they did before (`yields_p9Dispatch`).
-/

namespace WslFreeBSD.Stub

open Lib Config
open Lib.Faulting

variable {σ : Type} {K : Kernel σ} {conn tag : Nat} {body : Bytes} {w : World σ}

/-- The table and the descriptors of a world fit together. -/
def World.Tidy (base : Finset Nat) (w : World σ) : Prop :=
  Stub.Tidy base w.globals.fidMap w.globals.fidCount w.opened

variable {base : Finset Nat}

/-! ## Single steps -/

theorem keeps_ask (c : Call) : Keeps (World.Tidy base) (ask K c) := by
  intro w a w' h hw
  cases hw
  exact h

theorem keeps_malloc (size : Nat) : Keeps (World.Tidy base) (malloc K size) := keeps_ask _

theorem keeps_p9SendResponse (conn type tag : Nat) (body : Bytes) :
    Keeps (World.Tidy base) (p9SendResponse K conn type tag body) := by
  intro w a w' h hw
  cases hw
  exact h

theorem keeps_p9SendError (conn tag : Nat) (msg : String) :
    Keeps (World.Tidy base) (p9SendError K conn tag msg) := keeps_p9SendResponse _ _ _ _

theorem keeps_fidNextQpath : Keeps (World.Tidy base) (fidNextQpath : Serving σ Nat) := by
  intro w a w' h hw
  cases hw
  exact h

theorem keeps_fidFind (fid : Nat) : Keeps (World.Tidy base) (fidFind fid : Serving σ (Option FidEntry)) := by
  intro w a w' h hw
  cases hw
  exact h

theorem yields_send (h : w.Tidy base) (type : Nat) (reply : Bytes) :
    Yields (p9SendResponse K conn type tag reply) w fun _ w' => w'.Tidy base :=
  (keeps_p9SendResponse _ _ _ _).yields (total_p9SendResponse _ _ _ _ w) h

theorem yields_close {fd : Nat} (h : w.Tidy (insert fd base)) (hnew : fd ∉ base) :
    Yields (close K fd) w fun _ w' => w'.Tidy base :=
  yields_of_ok (close_apply fd) (h.closes hnew)

theorem yields_closedir {fd : Nat} (h : w.Tidy (insert fd base)) (hnew : fd ∉ base) :
    Yields (closedir K fd) w fun _ w' => w'.Tidy base :=
  yields_of_ok (closedir_apply fd) (h.closes hnew)

theorem yields_acquire (h : w.Tidy base) (what : Opening) :
    Yields (acquire K what) w fun fd w' => w'.globals = w.globals ∧ (fd = none → w'.Tidy base) ∧
      ∀ n, fd = some n → K.grants what w.env = true ∧ n ∉ base ∧ w'.Tidy (insert n base) := by
  cases hgrants : K.grants what w.env with
  | true =>
    have hnew := K.numbering.fresh w.opened
    refine yields_of_ok (acquire_of_true hgrants) ⟨rfl, by rintro ⟨⟩, ?_⟩
    rintro n ⟨⟩
    exact ⟨rfl, fun hbase => hnew (h.base_subset hbase), h.opens hnew⟩
  | false => exact yields_of_ok (acquire_of_false hgrants) ⟨rfl, fun _ => h, by rintro n ⟨⟩⟩

/-- The fid can be added without harm: it is not in use, or there is no slot for it. -/
def FidMap.Admits (m : FidMap) (fid : Nat) : Prop := m.find fid = none ∨ ∀ i, m i ≠ none

theorem yields_fidAdd {e : FidEntry} (h : w.Tidy (insert e.fd base)) (hnew : e.fd ∉ base)
    (hadmits : w.globals.fidMap.Admits e.fid) : Yields (fidAdd e) w fun added w' =>
      (added = true → w'.Tidy base) ∧ (added = false → w'.Tidy (insert e.fd base)) := by
  cases hadd : w.globals.fidMap.add e with
  | none => exact yields_of_ok (fidAdd_of_none hadd) ⟨by rintro ⟨⟩, fun _ => h⟩
  | some m =>
    obtain ⟨i, hfree, rfl⟩ := FidMap.add_eq_some hadd
    refine yields_of_ok (fidAdd_of_some hadd) ⟨fun _ => h.adds hnew hfree ?_, by rintro ⟨⟩⟩
    rcases hadmits with hunused | hfull
    · exact FidMap.find_eq_none_iff.mp hunused
    · exact absurd hfree (hfull i)

theorem yields_fidAdd_or_close {e : FidEntry} {reply : Bytes} {type : Nat} (h : w.Tidy (insert e.fd base))
    (hnew : e.fd ∉ base) (hadmits : w.globals.fidMap.Admits e.fid) :
    Yields (do
      if ← fidAdd e then p9SendResponse K conn type tag reply
      else
        close K e.fd
        p9SendError K conn tag "fid table full") w fun _ w' => w'.Tidy base := by
  refine (yields_fidAdd h hnew hadmits).bind fun added w' hadded => ?_
  cases added with
  | true => exact yields_send (hadded.1 rfl) _ _
  | false => exact (yields_close (hadded.2 rfl) hnew).bind fun _ _ h => yields_send h _ _

theorem yields_fidRemove (h : w.Tidy base) (fid : Nat) :
    Yields (fidRemove K fid) w fun _ w' => w'.Tidy base := by
  cases hlocate : w.globals.fidMap.locate fid with
  | none => exact yields_of_ok (fidRemove_of_none hlocate) h
  | some found =>
    exact yields_of_ok (fidRemove_of_some hlocate) (h.removes (FidMap.locate_spec hlocate).1)

theorem yields_fidReplace (new : FidEntry) (h : w.Tidy (insert new.fd base)) (hnew : new.fd ∉ base) :
    Yields (fidReplace K new) w fun replaced w' => (replaced = true → w'.Tidy base) ∧
      (replaced = false → w'.Tidy (insert new.fd base) ∧ w'.globals.fidMap.find new.fid = none) := by
  cases hlocate : w.globals.fidMap.locate new.fid with
  | none =>
    refine yields_of_ok (fidReplace_of_none hlocate) ⟨by rintro ⟨⟩, fun _ => ⟨h, ?_⟩⟩
    rw [FidMap.find, hlocate]
    rfl
  | some found =>
    obtain ⟨hslot, hfid⟩ := FidMap.locate_spec hlocate
    exact yields_of_ok (fidReplace_of_some hlocate) ⟨fun _ => h.replaces hnew hslot hfid.symm, by rintro ⟨⟩⟩

/-! ## Walks -/

/-- Neither as a directory nor as a file is the name opened. -/
def Kernel.Refuses (K : Kernel σ) (dir : Nat) (name : Bytes) (s : σ) : Prop :=
  K.grants (.openat dir name (O_DIRECTORY ||| O_NOFOLLOW ||| O_CLOEXEC) 0) s = false ∧
    K.grants (.openat dir name (O_RDONLY ||| O_NOFOLLOW ||| O_CLOEXEC) 0)
      (K.answer (.opens (.openat dir name (O_DIRECTORY ||| O_NOFOLLOW ||| O_CLOEXEC) 0)) s).2 = false

theorem yields_openComponent (h : w.Tidy base) (dir : Nat) (name : CStr) :
    Yields (openComponent K dir name) w fun next w' => w'.globals = w.globals ∧ (next = none → w'.Tidy base) ∧
      ∀ n, next = some n → ¬ K.Refuses dir name.1 w.env ∧ n.1 ∉ base ∧ w'.Tidy (insert n.1 base) := by
  have hfresh : K.numbering.pick w.opened ∉ base := fun hbase =>
    K.numbering.fresh w.opened (h.base_subset hbase)
  cases hdir : K.grants (.openat dir name.1 (O_DIRECTORY ||| O_NOFOLLOW ||| O_CLOEXEC) 0) w.env with
  | true =>
    refine yields_of_ok ((bind_of_ok (acquire_of_true hdir)).trans rfl) ⟨rfl, by rintro ⟨⟩, ?_⟩
    rintro n ⟨⟩
    refine ⟨fun hrefuses => ?_, hfresh, h.opens (K.numbering.fresh w.opened)⟩
    cases hrefuses.1.symm.trans hdir
  | false =>
    have hfirst := acquire_of_false hdir
    set w₁ : World σ := { w with env := (K.answer (.opens (.openat dir name.1 _ 0)) w.env).2 } with hw₁
    cases hfile : K.grants (.openat dir name.1 (O_RDONLY ||| O_NOFOLLOW ||| O_CLOEXEC) 0) w₁.env with
    | true =>
      refine yields_of_ok ((bind_of_ok hfirst).trans ((bind_of_ok (acquire_of_true hfile)).trans rfl))
        ⟨rfl, by rintro ⟨⟩, ?_⟩
      rintro n ⟨⟩
      refine ⟨fun hrefuses => ?_, hfresh, h.opens (K.numbering.fresh w.opened)⟩
      cases hrefuses.2.symm.trans hfile
    | false =>
      exact yields_of_ok ((bind_of_ok hfirst).trans ((bind_of_ok (acquire_of_false hfile)).trans rfl))
        ⟨rfl, fun _ => h, by rintro n ⟨⟩⟩

/-- What a walk needs: no name in front of the last one is opened, and the fid of the last one can be
added. -/
def WalkTidy (K : Kernel σ) (w : World σ) (body : Bytes) (parent : FidEntry) (newfid nwname : Nat) : Prop :=
  if nwname = 0 then K.grants (.dup parent.fd) w.env = true → w.globals.fidMap.Admits newfid
  else ∀ name ∈ (wireNames body nwname 10).head?, name.length < 256 ∧
    (K.Refuses parent.fd (cString name 0) w.env ∨ nwname = 1 ∧ w.globals.fidMap.Admits newfid)

theorem yields_walkComponents {parent : FidEntry} {newfid left : Nat} (h : w.Tidy base)
    (hwalk : ∀ name ∈ (wireNames body (left + 1) 10).head?, name.length < 256 ∧
      (K.Refuses parent.fd (cString name 0) w.env ∨ left + 1 = 1 ∧ w.globals.fidMap.Admits newfid)) :
    Yields (walkComponents K body parent newfid (left + 1) { curFd := parent.fd, curPath := parent.path }) w
      fun walk w' => w'.Tidy base ∧ walk.qids.length = 13 * 16 ∧ walk.nwqid ≤ 16 := by
  have hqids : (List.replicate (13 * 16) (0 : UInt8)).length = 13 * 16 := List.length_replicate ..
  obtain ⟨-, hdone⟩ | ⟨raw, hnames, hshort, -⟩ := walkComponents_succ K body parent newfid left
    { curFd := parent.fd, curPath := parent.path } w
  · exact yields_of_ok hdone ⟨h, hqids, Nat.zero_le _⟩
  rw [hnames] at hwalk
  obtain ⟨hlength, hopen⟩ := hwalk raw rfl
  obtain ⟨name, hname, hstep⟩ := hshort hlength
  rw [← hname] at hopen
  refine Yields.congr hstep ((yields_openComponent h _ _).bind fun next w₁ hnext => ?_)
  obtain ⟨hglobals, hnone, hsome⟩ := hnext
  cases next with
  | none => exact yields_pure ⟨hnone rfl, hqids, Nat.zero_le _⟩
  | some next =>
    obtain ⟨hopened, hnew, htidy⟩ := hsome next rfl
    obtain ⟨hlast, hadmits⟩ := hopen.resolve_left hopened
    obtain rfl : left = 0 := Nat.succ.inj hlast
    have hroom : 0 * 13 + (packQid next.2 0 w₁.globals.nextQpath).length ≤
        (List.replicate (13 * 16) (0 : UInt8)).length := by
      rw [length_packQid, hqids]
      omega
    obtain ⟨qids, hwrite, hlen'⟩ := writeBytes_spec hroom
    refine yields_bind_of_ok (a := w₁.globals.nextQpath) rfl ?_
    dsimp only
    rw [hwrite]
    refine yields_bind_of_ok lift_ok ?_
    rw [if_pos rfl]
    have hadd := yields_fidAdd (w := { w₁ with
        globals := { w₁.globals with nextQpath := (w₁.globals.nextQpath + 1) % 2 ^ 64 } })
      (e := ⟨newfid, next.1, w₁.globals.nextQpath, next.2, childPath parent.path name⟩) htidy hnew
      (by dsimp only; rwa [hglobals])
    refine hadd.bind fun added w₂ hadded => ?_
    cases added with
    | true => exact yields_pure ⟨hadded.1 rfl, hlen'.trans hqids, by simp⟩
    | false =>
      refine (yields_close (hadded.2 rfl) hnew).bind fun _ w₃ h₃ => ?_
      exact yields_pure ⟨h₃, hqids, Nat.zero_le _⟩

theorem keeps_walkReply (walk : Walk) : Keeps (World.Tidy base) (walkReply K conn tag walk) :=
  Keeps.ite (keeps_p9SendResponse _ _ _ _)
    (keeps_lift.bind fun _ => keeps_lift.bind fun _ => keeps_p9SendResponse _ _ _ _)

theorem yields_walkFrom {parent : FidEntry} {newfid nwname : Nat} (h : w.Tidy base)
    (hwalk : WalkTidy K w body parent newfid nwname) :
    Yields (walkFrom K conn tag body parent newfid nwname) w fun _ w' => w'.Tidy base := by
  unfold WalkTidy at hwalk
  unfold walkFrom
  split
  · rename_i hzero
    rw [if_pos hzero] at hwalk
    refine (yields_acquire h _).bind fun newfd w' hnewfd => ?_
    obtain ⟨hglobals, hnone, hsome⟩ := hnewfd
    cases newfd with
    | none => exact yields_send (hnone rfl) _ _
    | some newfd =>
      obtain ⟨hgrants, hnew, htidy⟩ := hsome newfd rfl
      exact yields_fidAdd_or_close (e := { parent with fid := newfid, fd := newfd }) htidy hnew
        (by rw [hglobals]; exact hwalk hgrants)
  · rename_i hzero
    rw [if_neg hzero] at hwalk
    obtain ⟨left, rfl⟩ := Nat.exists_eq_succ_of_ne_zero hzero
    refine (yields_walkComponents h hwalk).bind fun walk w' hdone => ?_
    obtain ⟨htidy, hqids, hroom⟩ := hdone
    exact (keeps_walkReply walk).yields (completes_walkReply hqids hroom) htidy

/-! ## The handlers -/

theorem keeps_field {least off n : Nat} :
    Keeps (World.Tidy base) (lift (field body least off n) : Serving σ Nat) := keeps_lift

theorem yields_tattach (h : w.Tidy base)
    (hadmits : K.grants (.dup w.globals.rootFd) w.env = true → w.globals.fidMap.Admits (fieldAt body 4 0 4)) :
    Yields (tattach K conn tag body) w fun _ w' => w'.Tidy base := by
  refine yields_bind_of_ok (lift_field (by omega)) (yields_bind_of_ok get_apply ?_)
  refine (yields_acquire h _).bind fun rootDup w' hdup => ?_
  obtain ⟨hglobals, hnone, hsome⟩ := hdup
  cases rootDup with
  | none => exact yields_send (hnone rfl) _ _
  | some rootDup =>
    obtain ⟨hgrants, hnew, htidy⟩ := hsome rootDup rfl
    exact yields_fidAdd_or_close (e := ⟨fieldAt body 4 0 4, rootDup, 1, P9_QID_DIR, .root⟩) htidy hnew
      (by rw [hglobals]; exact hadmits hgrants)

theorem yields_twalk (h : w.Tidy base)
    (hwalk : ∀ parent, w.globals.fidMap.find (fieldAt body 10 0 4) = some parent →
      WalkTidy K w body parent (fieldAt body 10 4 4) (fieldAt body 10 8 2)) :
    Yields (twalk K conn tag body) w fun _ w' => w'.Tidy base := by
  refine yields_bind_of_ok (lift_field (by omega)) (yields_bind_of_ok (lift_field (by omega)) ?_)
  refine yields_bind_of_ok (lift_field (by omega)) (yields_bind_of_ok (fidFind_apply _) ?_)
  cases hfind : w.globals.fidMap.find (fieldAt body 10 0 4) with
  | none => exact yields_send h _ _
  | some parent => exact yields_walkFrom h (hwalk parent hfind)

theorem yields_tclunk (h : w.Tidy base) : Yields (tclunk K conn tag body) w fun _ w' => w'.Tidy base := by
  refine yields_bind_of_ok (lift_field (by omega)) ?_
  exact (yields_fidRemove h _).bind fun _ _ h' => yields_send h' _ _

theorem yields_tremove (h : w.Tidy base) : Yields (tremove K conn tag body) w fun _ w' => w'.Tidy base := by
  refine yields_bind_of_ok (lift_field (by omega)) (yields_bind_of_ok get_apply ?_)
  cases w.globals.fidMap.find (fieldAt body 4 0 4) with
  | none => exact yields_send h _ _
  | some e =>
    refine ((keeps_ask _).yields (total_ask _ w) h).bind fun _ w' h' => ?_
    exact (yields_fidRemove h' _).bind fun _ _ h'' => yields_send h'' _ _

theorem yields_tlopen (h : w.Tidy base) : Yields (tlopen K conn tag body) w fun _ w' => w'.Tidy base := by
  refine yields_bind_of_ok (lift_field (by omega)) (yields_bind_of_ok (lift_field (by omega)) ?_)
  refine yields_bind_of_ok get_apply ?_
  cases hlocate : w.globals.fidMap.locate (fieldAt body 8 0 4) with
  | none => exact yields_send h _ _
  | some found =>
    obtain ⟨i, e⟩ := found
    have hslot := (FidMap.locate_spec hlocate).1
    dsimp only
    split
    · exact yields_send h _ _
    · refine (yields_acquire h _).bind fun newfd w' hnewfd => ?_
      obtain ⟨hglobals, hnone, hsome⟩ := hnewfd
      cases newfd with
      | none => exact yields_send (hnone rfl) _ _
      | some newfd =>
        obtain ⟨-, hnew, htidy⟩ := hsome newfd rfl
        refine yields_bind_of_ok (close_apply _) (yields_bind_of_ok (modify_apply _) (yields_send ?_ _ _))
        have hslot' : w'.globals.fidMap i = some e := by rw [hglobals, hslot]
        refine Tidy.replaces ?_ hnew hslot' rfl
        exact htidy

theorem yields_createFile {parent : FidEntry} {fid flags mode : Nat} {name : CStr} (h : w.Tidy base) :
    Yields (createFile K conn tag parent fid flags mode name) w fun _ w' => w'.Tidy base := by
  refine (yields_acquire h _).bind fun newfd w' hnewfd => ?_
  obtain ⟨-, hnone, hsome⟩ := hnewfd
  cases newfd with
  | none => exact yields_send (hnone rfl) _ _
  | some newfd =>
    obtain ⟨-, hnew, htidy⟩ := hsome newfd rfl
    refine (keeps_fidNextQpath.yields (total_fidNextQpath w') htidy).bind fun qpath w₁ h₁ => ?_
    refine (yields_fidReplace ⟨fid, newfd, qpath, 0, childPath parent.path name⟩ h₁ hnew).bind
      fun replaced w₂ hreplaced => ?_
    cases replaced with
    | true => exact yields_send (hreplaced.1 rfl) _ _
    | false =>
      obtain ⟨h₂, hunused⟩ := hreplaced.2 rfl
      exact yields_fidAdd_or_close h₂ hnew (Or.inl hunused)

theorem yields_tlcreate (h : w.Tidy base) (hfits : Completes (tlcreate K conn tag body) w) :
    Yields (tlcreate K conn tag body) w fun _ w' => w'.Tidy base := by
  have hfile (parent : FidEntry) (fid flags mode : Nat) (name : CStr) :
      Keeps (World.Tidy base) (createFile K conn tag parent fid flags mode name) := by
    intro w a w' hw hrun
    have hyields : Yields (createFile K conn tag parent fid flags mode name) w fun _ w' => w'.Tidy base :=
      yields_createFile hw
    obtain ⟨b, w'', hrun', htidy⟩ := hyields
    cases hrun.symm.trans hrun'
    exact htidy
  refine Keeps.yields ?_ hfits h
  refine keeps_field.bind fun fid => keeps_field.bind fun nameLen => keeps_lift.bind fun name => ?_
  refine keeps_field.bind fun flags => keeps_field.bind fun mode => (keeps_fidFind _).bind fun parent => ?_
  cases parent with
  | none => exact keeps_p9SendError _ _ _
  | some parent => exact keeps_lift.bind fun name => hfile _ _ _ _ _

theorem keeps_packEntries (count entryIdx : Nat) (data : Bytes) (entries : List Dirent) :
    Keeps (World.Tidy base) (packEntries count entryIdx data entries : Serving σ Bytes) := by
  induction entries generalizing entryIdx data with
  | nil => exact keeps_pure
  | cons de entries ih =>
    rw [packEntries]
    refine Keeps.ite (Keeps.ite (ih _ _) (keeps_fidNextQpath.bind fun qpath => ?_)) keeps_pure
    refine Keeps.ite keeps_pure (keeps_lift.bind fun _ => keeps_lift.bind fun _ => ?_)
    exact keeps_lift.bind fun _ => keeps_lift.bind fun _ => ih _ _

theorem yields_readDirectory {e : FidEntry} {offset count : Nat} (h : w.Tidy base)
    (hstream : ∀ dirFd w', acquire K (.dup e.fd) w = .ok (some dirFd, w') → K.streams dirFd w'.env ≠ none) :
    Yields (readDirectory K conn tag e offset count) w fun _ w' => w'.Tidy base := by
  obtain ⟨dirFd, w', hdup, -, hnone, hsome⟩ := yields_acquire (K := K) h (.dup e.fd)
  refine yields_bind_of_ok hdup ?_
  cases dirFd with
  | none => exact yields_send (hnone rfl) _ _
  | some dirFd =>
    obtain ⟨-, hnew, htidy⟩ := hsome dirFd rfl
    have hopen : Yields (opendir K dirFd) w' fun entries w₁ =>
        entries = K.streams dirFd w'.env ∧ w₁.Tidy (insert dirFd base) :=
      yields_of_ok (opendir_apply _) ⟨rfl, htidy⟩
    obtain ⟨entries, hentries⟩ := Option.ne_none_iff_exists'.mp (hstream dirFd w' hdup)
    rw [hentries] at hopen
    refine hopen.bind fun stream w₁ hstream => ?_
    obtain ⟨rfl, h₁⟩ := hstream
    rcases hskip : skipEntries offset 0 entries with ⟨entryIdx, rest⟩
    dsimp only
    rw [hskip]
    refine ((keeps_malloc _).yields (total_malloc _ _) h₁).bind fun got w₂ h₂ => ?_
    cases got with
    | true =>
      refine ((keeps_packEntries _ _ _ _).yields (total_packEntries _ _ _ _ _) h₂).bind fun data w₃ h₃ => ?_
      refine (yields_closedir h₃ hnew).bind fun _ w₄ h₄ => ?_
      refine ((keeps_malloc _).yields (total_malloc _ _) h₄).bind fun got' w₅ h₅ => ?_
      cases got' with
      | true => exact yields_send h₅ _ _
      | false => exact yields_send h₅ _ _
    | false => exact (yields_closedir h₂ hnew).bind fun _ _ h₃ => yields_send h₃ _ _

theorem keeps_readFile (e : FidEntry) (offset count : Nat) :
    Keeps (World.Tidy base) (readFile K conn tag e offset count) := by
  refine (keeps_malloc _).bind fun got => Keeps.ite ?_ (keeps_p9SendError _ _ _)
  refine (keeps_ask _).bind fun data => ?_
  cases data with
  | none => exact keeps_p9SendError _ _ _
  | some data =>
    exact (keeps_malloc _).bind fun _ => Keeps.ite (keeps_p9SendResponse _ _ _ _) (keeps_p9SendError _ _ _)

theorem yields_tread (h : w.Tidy base)
    (hstream : ∀ e, w.globals.fidMap.find (fieldAt body 16 0 4) = some e → e.isDirectory = true →
      ∀ dirFd w', acquire K (.dup e.fd) w = .ok (some dirFd, w') → K.streams dirFd w'.env ≠ none) :
    Yields (tread K conn tag body) w fun _ w' => w'.Tidy base := by
  refine yields_bind_of_ok (lift_field (by omega)) (yields_bind_of_ok (lift_field (by omega)) ?_)
  refine yields_bind_of_ok (lift_field (by omega)) (yields_bind_of_ok (fidFind_apply _) ?_)
  cases hfind : w.globals.fidMap.find (fieldAt body 16 0 4) with
  | none => exact yields_send h _ _
  | some e =>
    cases hdir : e.isDirectory with
    | true =>
      dsimp only
      rw [if_pos hdir]
      exact yields_readDirectory h (hstream e hfind hdir)
    | false =>
      dsimp only
      rw [if_neg (Bool.eq_false_iff.mp hdir)]
      exact (keeps_readFile _ _ _).yields (total_readFile _ _ _ _) h

theorem keeps_tversion : Keeps (World.Tidy base) (tversion K conn tag body) :=
  Keeps.ite (keeps_p9SendError _ _ _) (keeps_lift.bind fun _ => keeps_p9SendResponse _ _ _ _)

theorem keeps_tstat : Keeps (World.Tidy base) (tstat K conn tag body) := by
  refine keeps_field.bind fun fid => (keeps_fidFind _).bind fun e => ?_
  cases e with
  | none => exact keeps_p9SendError _ _ _
  | some e =>
    refine (keeps_ask _).bind fun st => ?_
    cases st with
    | none => exact keeps_p9SendError _ _ _
    | some st => exact keeps_lift.bind fun _ => keeps_lift.bind fun _ => keeps_p9SendResponse _ _ _ _

theorem keeps_twrite : Keeps (World.Tidy base) (twrite K conn tag body) := by
  refine keeps_field.bind fun fid => keeps_field.bind fun offset => keeps_field.bind fun count =>
    (keeps_fidFind _).bind fun e => ?_
  cases e with
  | none => exact keeps_p9SendError _ _ _
  | some e =>
    refine Keeps.bind (Keeps.ite (keeps_lift.bind fun _ => keeps_ask _) keeps_pure) fun n => ?_
    exact keeps_p9SendResponse _ _ _ _

/-! ## Requests -/

/-- What a request needs, in the world in which it is handled. -/
def RequestTidy (K : Kernel σ) (w : World σ) (type : Nat) (body : Bytes) : Prop :=
  if type = P9_TATTACH then
    K.grants (.dup w.globals.rootFd) w.env = true → w.globals.fidMap.Admits (fieldAt body 4 0 4)
  else if type = P9_TWALK then
    ∀ parent, w.globals.fidMap.find (fieldAt body 10 0 4) = some parent →
      WalkTidy K w body parent (fieldAt body 10 4 4) (fieldAt body 10 8 2)
  else if type = P9_TREAD then
    ∀ e, w.globals.fidMap.find (fieldAt body 16 0 4) = some e → e.isDirectory = true →
      ∀ dirFd w', acquire K (.dup e.fd) w = .ok (some dirFd, w') → K.streams dirFd w'.env ≠ none
  else if type = P9_TSTAT then
    ∀ e st, w.globals.fidMap.find (fieldAt body 4 0 4) = some e → K.stats e.fd w.env = some st →
      e.path.1.length ≤ 450
  else if type = P9_TLCREATE then
    (NameCopied body → fieldAt body 10 4 2 < 256) ∧
      (w.globals.fidMap.find (fieldAt body 10 0 4) ≠ none → NameCopied body)
  else if type = P9_TWRITE then
    w.globals.fidMap.find (fieldAt body 16 0 4) ≠ none → fieldAt body 16 12 4 + 16 < 2 ^ 32
  else True

theorem RequestTidy.attach {type : Nat} (htype : type = P9_TATTACH)
    (h : K.grants (.dup w.globals.rootFd) w.env = true → w.globals.fidMap.Admits (fieldAt body 4 0 4)) :
    RequestTidy K w type body := by
  unfold RequestTidy
  rwa [if_pos htype]

theorem yields_p9Dispatch {type : Nat} (h : w.Tidy base) (hbody : body.length < 2 ^ 32 - 16)
    (hrequest : RequestTidy K w type body) :
    Yields (p9Dispatch K conn tag body type) w fun _ w' => w'.Tidy base := by
  unfold RequestTidy at hrequest
  by_cases hattach : type = P9_TATTACH
  · subst hattach
    exact yields_tattach h hrequest
  rw [if_neg hattach] at hrequest
  by_cases hwalk : type = P9_TWALK
  · subst hwalk
    exact yields_twalk h hrequest
  rw [if_neg hwalk] at hrequest
  by_cases hread : type = P9_TREAD
  · subst hread
    exact yields_tread h hrequest
  rw [if_neg hread] at hrequest
  by_cases hstat : type = P9_TSTAT
  · subst hstat
    exact keeps_tstat.yields (completes_tstat_iff.mpr hrequest) h
  rw [if_neg hstat] at hrequest
  by_cases hcreate : type = P9_TLCREATE
  · subst hcreate
    exact yields_tlcreate h (completes_tlcreate_iff.mpr hrequest)
  rw [if_neg hcreate] at hrequest
  by_cases hwrite : type = P9_TWRITE
  · subst hwrite
    exact keeps_twrite.yields ((completes_twrite_iff hbody).mpr hrequest) h
  unfold p9Dispatch
  rw [if_neg hattach, if_neg hwalk, if_neg hread, if_neg hstat, if_neg hcreate, if_neg hwrite]
  split
  · exact keeps_tversion.yields (total_tversion w) h
  split
  · exact yields_tclunk h
  split
  · exact yields_tlopen h
  split
  · exact yields_tremove h
  split
  · exact yields_send h _ _
  · exact yields_send h _ _

end WslFreeBSD.Stub
