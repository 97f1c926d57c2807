import WslFreeBSD.Plan9.FileNames
import WslFreeBSD.Plan9.Opens
import WslFreeBSD.Plan9.WorkingRuns

/-!
# Where a `Twopen` goes wrong

A request without names is answered with the file itself, as created, and one that makes a directory is
answered with its parent. Here are systems in which this happens (`GoesWrong.exists_run`): one that works, and
one that works but for the item, which is not there until it is looked for. So a request is answered rightly in
every environment exactly if it is not one of these.
-/

namespace WslFreeBSD.Plan9

open Lib

theorem isErrno_two : 0 < 2 ∧ 2 < 4096 := by decide

/-- A system that works, but does not find one path. -/
def lacking (path : Bytes) : (e : Syscall) → e.Answer
  | .fstatat _ p false => if p = path then .error ⟨2, isErrno_two⟩ else .ok directoryStat
  | e => working e

/-- An environment that works in its own way for some calls. -/
def phased (first : (e : Syscall) → e.Answer) (n : Nat) : Surroundings :=
  fun t e => if t.length < n then first e else working e

theorem lawful_working (e : Syscall) : Lawful e (working e) := by
  cases e <;> trivial

theorem lawful_lacking (path : Bytes) (e : Syscall) : Lawful e (lacking path e) := by
  cases e with
  | fstatat dir p follow =>
    cases follow with
    | true => trivial
    | false =>
      rw [lacking]
      split
      · exact (by decide : Errno.code ⟨2, isErrno_two⟩ ≠ eexist)
      · trivial
  | _ => exact lawful_working _

theorem lawful_phased {first : (e : Syscall) → e.Answer} (hfirst : ∀ e, Lawful e (first e)) (n : Nat)
    (t : Calls.Trace) (e : Syscall) : Lawful e (phased first n t e) := by
  rw [phased]
  split
  · exact hfirst e
  · exact lawful_working e

theorem willing_lacking (path : Bytes) : Willing (lacking path) := ⟨fun _ => rfl, fun _ => rfl, fun _ => rfl⟩

/-! ## Files -/

section Files

variable {σ : Type} {f : File} {name : Bytes}

theorem comes_walk_missing (hpath : IsPath f.fileName) (hname : isName name) (hdir : f.qid.isDirectory) :
    Action.Comes (lacking (appendPath f.fileName name)) (File.walk name) f (.value (.error enoent)) f := by
  have hst : lacking (appendPath f.fileName name)
      (.fstatat f.root.rootFd (appendPath f.fileName name) false) = .error ⟨2, isErrno_two⟩ := if_pos rfl
  have hvalidate : Action.Comes (lacking (appendPath f.fileName name)) File.validateExists
      { f with fileName := appendPath f.fileName name } (.value (.error enoent))
      { f with fileName := appendPath f.fileName name } :=
    Action.comes_get.bind (((comes_stat (f := { f with fileName := appendPath f.fileName name }) hst).embed
      _).bind rfl)
  have hchild : Action.Comes (lacking (appendPath f.fileName name)) (File.findChild f.device)
      { f with fileName := appendPath f.fileName name } (.value (.error enoent))
      { f with fileName := appendPath f.fileName name } := hvalidate.bind rfl
  refine Action.comes_get.bind ?_
  rw [if_pos hdir]
  refine Action.comes_modify.bind ?_
  rw [Action.Comes, File.scopeExit, Program.evalWith_bind, (willing_lacking _).withUser f.root hchild]
  change (_, _) = _
  rw [parentPath_appendPath hpath hname]

theorem comes_mkDir (mode : Nat) (s : σ) :
    Action.Comes working (f.mkDir name mode) s (.value (.ok (statToQid directoryStat))) s := by
  rw [File.mkDir]
  refine comes_withUser f.root (Action.Comes.embed ?_ s)
  -- the directory is made, and its attributes are read
  rfl

theorem comes_open (hclosed : f.state = .closed) (flags : Nat) :
    Action.Comes working (File.open_ flags) f (.value f.qid) { f with state := .file 3 } := by
  have hopen (linuxFlags : Nat) : Action.Comes working (openAt f.root.rootFd f.fileName linuxFlags 0o600) ()
      (.value (.ok 3)) () := by
    rw [openAt, reopen]
    split
    · split <;> rfl
    · rfl
  have hnot : ¬ f.isOpen := by rw [File.isOpen, hclosed]; decide
  refine Action.comes_get.bind ?_
  rw [if_neg hnot]
  exact comes_withUser f.root (((hopen _).embed f).bind rfl)

theorem comes_getAttr (mask : Nat) (s : σ) : ∃ valid, Action.Comes working (f.getAttr mask) s
    (.value (valid, f.qid, File.attributes mask directoryStat)) s := by
  have hcalls : Action.Comes working (do
      let st ← orThrow (← Action.call (.fstatat f.root.rootFd f.fileName false))
      return (File.getAttrFlags.foldl (fun v flag => if anySet mask flag then v ||| flag else v)
        File.GetAttr.ino, f.qid, File.attributes mask st) : Calls (Nat × Qid × StatResult)) ()
      (.value (_, f.qid, File.attributes mask directoryStat)) () := rfl
  exact ⟨_, comes_withUser f.root (hcalls.embed s)⟩

theorem comes_accessHelper (fd : Nat) (path : Bytes) (mode : Nat) :
    Action.Comes working (accessHelper fd path mode) () (.value ()) () := by
  rw [accessHelper]
  split <;> rfl

theorem comes_access_delete (hname : f.fileName ≠ []) (s : σ) :
    Action.Comes working (f.access accessDelete) s (.value ()) s := by
  have hdelete : Action.Comes working f.accessToDelete () (.value ()) () := by
    rw [File.accessToDelete, if_neg hname]
    exact (comes_accessHelper _ _ _).bind rfl
  refine comes_withUser f.root (Action.Comes.embed ((comes_accessHelper _ _ _).bind ?_) s)
  rw [if_pos (by decide)]
  exact hdelete

theorem comes_readLink (size : Nat) (s : σ) :
    Action.Comes working (f.readLink size) s (.value (.ok ⟨[], Nat.zero_le _, Nat.zero_le _⟩)) s := by
  refine comes_withUser f.root (Action.Comes.embed ?_ s)
  exact rfl

/-! ## The reply -/

variable {h : Handler} {b : Bytes} {w : MessageResponse}

/-- What comes to a value in a system that works. -/
def Completes (m : Op Context Unit) (c : Context) (P : Context → Prop) : Prop :=
  ∃ c', Action.Comes working m c (.value ()) c' ∧ P c'

theorem completes_then {α : Type} {m : Op Context α} {k : α → Op Context Unit} {a : α} {c c' : Context}
    {P : Context → Prop} (hm : Action.Comes working m c (.value a) c') (hk : Completes (k a) c' P) :
    Completes (m >>= k) c P := by
  obtain ⟨c'', hc, hP⟩ := hk
  exact ⟨c'', hm.bind hc, hP⟩

theorem completes_ite {p : Prop} [Decidable p] {m m' : Op Context Unit} {c : Context} {P : Context → Prop}
    (hm : p → Completes m c P) (hm' : ¬ p → Completes m' c P) : Completes (if p then m else m') c P := by
  split
  · next hp => exact hm hp
  · next hp => exact hm' hp

theorem completes_write_then {data : Bytes} {n room : Nat} {m : Op Context Unit} {P : Context → Prop}
    (hn : data.length = n) (hroom : headerSize + w.written.length + room ≤ w.size) (hle : n ≤ room)
    (hm : ∀ w', w'.written = w.written ++ data → headerSize + w'.written.length + (room - n) ≤ w'.size →
      Completes m ⟨h, b, w'⟩ P) :
    Completes (SpanWriter.write data >>= fun _ => m) ⟨h, b, w⟩ P := by
  have hfits : headerSize + (w.written ++ data).length ≤ w.size := by
    rw [List.length_append]
    omega
  refine completes_then (Action.comes_of_pure (write_run hfits)) (hm _ rfl ?_)
  change headerSize + (w.written ++ data).length + (room - n) ≤ w.size
  rw [List.length_append]
  omega

theorem completes_write {data : Bytes} {n room : Nat} {P : Context → Prop} (hn : data.length = n)
    (hroom : headerSize + w.written.length + room ≤ w.size) (hle : n ≤ room)
    (hP : ∀ w', w'.written = w.written ++ data → P ⟨h, b, w'⟩) :
    Completes (SpanWriter.write data) ⟨h, b, w⟩ P := by
  have hfits : headerSize + (w.written ++ data).length ≤ w.size := by
    rw [List.length_append]
    omega
  exact ⟨_, Action.comes_of_pure (write_run hfits), hP _ rfl⟩

theorem comes_ensureSize {t : MessageType} {extra : Nat} (hw : w.written = []) (hroom : HasRoom h w t extra) :
    ∃ w', Action.Comes working (ensureSize t extra) ⟨h, b, w⟩ (.value ()) ⟨h, b, w'⟩ ∧ w'.written = [] ∧
      getMessageSize t + extra ≤ w'.size := by
  obtain ⟨hnegotiated, hsize⟩ := hroom
  by_cases hfits : getMessageSize t + extra ≤ w.size
  · exact ⟨w, Action.comes_of_pure (ensureSize_run hnegotiated hfits), hw, hfits⟩
  · refine ⟨.ofSize (getMessageSize t + extra) w.allowResize (headerSize_le t extra), ?_, rfl, le_rfl⟩
    refine Action.comes_get.bind ?_
    rw [if_neg (Nat.not_lt.mpr hnegotiated), if_pos (Nat.lt_of_not_le hfits),
      if_neg (not_not.mpr (hsize.resolve_left hfits))]
    rfl

theorem comes_writeLink {room : Nat} (hroom : headerSize + w.written.length + room ≤ w.size) (hle : 2 ≤ room)
    (onError : Int → Op Context Unit) :
    ∃ w', Action.Comes working (writeLink f onError) ⟨h, b, w⟩ (.value ()) ⟨h, b, w'⟩ ∧
      w'.written = w.written ++ leBytes 2 0 ∧ headerSize + w'.written.length + (room - 2) ≤ w'.size := by
  have hlength : headerSize + (w.written ++ leBytes 2 0).length ≤ w.size := by
    rw [List.length_append, length_leBytes]
    omega
  have hnothing : headerSize + (w.written ++ leBytes 2 0 ++ []).length ≤ w.size := by
    rwa [List.append_nil]
  refine ⟨{ w with written := w.written ++ leBytes 2 0 ++ [], fits := hnothing }, ?_, List.append_nil _, ?_⟩
  · have hremaining : ¬ w.remaining < 2 := by
      rw [MessageResponse.remaining]
      omega
    have hpeek : Action.Comes working (SpanWriter.peek 2) ⟨h, b, w⟩ (.value ()) ⟨h, b, w⟩ := by
      refine Action.comes_get.bind ?_
      rw [if_neg hremaining]
      rfl
    refine hpeek.bind (Action.comes_get.bind ((comes_readLink _ _).bind ?_))
    exact (Action.comes_of_pure (write_run hlength)).bind (Action.comes_of_pure (write_run (h := h) (b := b)
      (w := { w with written := w.written ++ leBytes 2 0, fits := hlength }) hnothing))
  · change headerSize + (w.written ++ leBytes 2 0 ++ []).length + (room - 2) ≤ w.size
    rw [List.append_nil, List.length_append, length_leBytes]
    omega

theorem completes_writeWOpenReply (hw : w.written = []) (status : WOpenStatus) (walked mask : Nat)
    (hroom : HasRoom h w .wopen (wopenExtra f.qid)) :
    Completes (writeWOpenReply status walked f mask) ⟨h, b, w⟩ fun c => c.handler = h ∧
      c.response.written = wopenReply status walked f.qid (leBytes 2 0) (File.attributes mask directoryStat) := by
  obtain ⟨valid, hattr⟩ := comes_getAttr (f := f) mask (⟨h, b, w⟩ : Context)
  obtain ⟨w₀, hensure, hwritten, hsize⟩ := comes_ensureSize (b := b) hw hroom
  have hstart : headerSize + w₀.written.length + 154 ≤ w₀.size := by
    rw [hwritten]
    refine le_trans ?_ ((Nat.le_add_right _ _).trans hsize)
    decide
  have hattributes {w' : MessageResponse} (hlink : w'.written = leBytes 1 status.code ++ leBytes 2 walked ++
      qidBytes f.qid ++ leBytes 2 0) (hroom : headerSize + w'.written.length + 136 ≤ w'.size) :
      Completes (do
        SpanWriter.uint 4 ioUnit
        SpanWriter.write (statResultBytes (File.attributes mask directoryStat))
        SpanWriter.uint 8 0
        SpanWriter.uint 8 0
        SpanWriter.uint 8 0
        SpanWriter.uint 8 0) ⟨h, b, w'⟩ fun c => c.handler = h ∧ c.response.written =
          wopenReply status walked f.qid (leBytes 2 0) (File.attributes mask directoryStat) := by
    refine completes_write_then (length_leBytes 4 _) hroom (by decide) fun w₁ h₁ hroom => ?_
    refine completes_write_then (length_statResultBytes _) hroom (by decide) fun w₂ h₂ hroom => ?_
    refine completes_write_then (length_leBytes 8 0) hroom (by decide) fun w₃ h₃ hroom => ?_
    refine completes_write_then (length_leBytes 8 0) hroom (by decide) fun w₄ h₄ hroom => ?_
    refine completes_write_then (length_leBytes 8 0) hroom (by decide) fun w₅ h₅ hroom => ?_
    refine completes_write (length_leBytes 8 0) hroom (by decide) fun w₆ h₆ => ⟨rfl, ?_⟩
    rw [h₆, h₅, h₄, h₃, h₂, h₁, hlink]
    rfl
  refine completes_then hattr (completes_then hensure ?_)
  refine completes_write_then (length_leBytes 1 _) hstart (by decide) fun w₁ h₁ hroom => ?_
  refine completes_write_then (length_leBytes 2 _) hroom (by decide) fun w₂ h₂ hroom => ?_
  refine completes_write_then (length_qidBytes _) hroom (by decide) fun w₃ h₃ hroom => ?_
  rw [hwritten, List.nil_append] at h₁
  rw [h₂, h₁] at h₃
  by_cases hlink : f.qid.isSymlink
  · obtain ⟨w₄, hcomes, h₄, hroom⟩ :=
      comes_writeLink (h := h) (b := b) (f := f) hroom (by decide) fun _ => SpanWriter.uint 2 0
    rw [if_pos hlink]
    exact completes_then hcomes (hattributes (h₃ ▸ h₄) hroom)
  · rw [if_neg hlink]
    exact completes_write_then (length_leBytes 2 0) hroom (by decide) fun w₄ h₄ hroom =>
      hattributes (h₃ ▸ h₄) hroom

theorem comes_openItem {g : File} (hclosed : g.state = .closed) (flags : Nat) (item : WOpenItem) (c : Context) :
    ∃ g', Action.Comes working (openItem flags item g) c (.value g') c ∧ g'.fileName = g.fileName ∧
      g'.qid = g.qid := by
  rw [openItem]
  dsimp only
  split
  · exact ⟨{ g with state := .file 3 }, ((comes_open hclosed _).withState c).bind rfl, rfl, rfl⟩
  · exact ⟨g, rfl, rfl, rfl⟩

theorem completes_finishItem {g : File} (item : WOpenItem) {flags wflags newFid : Nat} (n mask : Nat)
    (hw : w.written = []) (hclosed : g.state = .closed)
    (htype : ¬ (anySet wflags WOpenFlags.nonDirectoryFile ∧ item.qid.isDirectory))
    (hdirectory : ¬ (anySet flags OpenFlags.directory ∧ ¬ item.qid.isDirectory))
    (hdelete : anySet wflags WOpenFlags.deleteAccess → g.fileName ≠ [])
    (hlink : ¬ (item.qid.isSymlink ∧ ¬ anySet wflags WOpenFlags.openSymlink))
    (hroom : HasRoom h w .wopen (wopenExtra g.qid)) (hfree : h.fids newFid = none) :
    Completes (finishItem newFid flags wflags mask n item g) ⟨h, b, w⟩ fun c =>
      (∃ g', g'.fileName = g.fileName ∧ c.handler = h.setFid newFid (some (.file g'))) ∧
        c.response.written = wopenReply (if item.existed then .opened else .created) n g.qid (leBytes 2 0)
          (File.attributes mask directoryStat) := by
  rw [finishItem, if_neg htype, if_neg hdirectory]
  have hrest : Completes (do
      if item.qid.isSymlink ∧ ¬ anySet wflags WOpenFlags.openSymlink then
        writeWOpenReply .stopped n g mask
      else
        let file ← openItem flags item g
        writeWOpenReply (if item.existed then .opened else .created) n file mask
        emplaceFid newFid (.file file)) ⟨h, b, w⟩ fun c =>
      (∃ g', g'.fileName = g.fileName ∧ c.handler = h.setFid newFid (some (.file g'))) ∧
        c.response.written = wopenReply (if item.existed then .opened else .created) n g.qid (leBytes 2 0)
          (File.attributes mask directoryStat) := by
    rw [if_neg hlink]
    obtain ⟨g', hopen, hname, hqid⟩ := comes_openItem hclosed flags item (⟨h, b, w⟩ : Context)
    obtain ⟨c, hc, hhandler, hwritten⟩ := completes_writeWOpenReply (f := g') (b := b) hw
      (if item.existed then .opened else .created) n mask (hqid ▸ hroom)
    have hemplace : Action.Comes working (emplaceFid newFid (.file g')) c (.value ())
        { c with handler := c.handler.setFid newFid (some (.file g')) } :=
      Action.comes_of_pure (emplaceFid_run (hhandler.symm ▸ hfree : c.handler.fids newFid = none))
    refine completes_then hopen (completes_then hc ⟨_, hemplace, ⟨g', hname, ?_⟩, ?_⟩)
    · exact congrArg (fun h' : Handler => h'.setFid newFid (some (.file g'))) hhandler
    · exact hwritten.trans (by rw [hqid])
  exact completes_ite (fun hdel => completes_then (comes_access_delete (hdelete hdel) _) hrest) fun _ => hrest

end Files

/-! ## The parents of an item -/

/-- A file that has come along names, each of which was a directory. -/
structure Descended (f : File) (n : Nat) (b : Bytes) (k : Nat) (g : File) : Prop where
  root : g.root = f.root
  state : g.state = f.state
  path : g.fileName = wopenPath f n b k
  qid : k = 0 ∧ g = f ∨ 0 < k ∧ g.qid = statToQid directoryStat

section Parents

variable {answer : (e : Syscall) → e.Answer} {h : Handler} {w : MessageResponse} {f g : File} {n k : Nat} {b : Bytes}

theorem Descended.isDirectory (hg : Descended f n b k g) (hdir : f.qid.isDirectory) : g.qid.isDirectory := by
  rcases hg.qid with ⟨-, rfl⟩ | ⟨-, hqid⟩
  · exact hdir
  · rw [hqid]
    decide

theorem Descended.below (hg : Descended f n b k g) (hk : k < n) :
    Descended f n b (k + 1) (g.below (stringAt (behindNames k b))) where
  root := hg.root
  state := hg.state
  path := by rw [Trail.wopenPath_succ hk, ← hg.path]; rfl
  qid := Or.inr ⟨Nat.succ_pos k, rfl⟩

theorem isPath_wopenPath (hpath : IsPath f.fileName) (hnames : ∀ i < k, isName (stringAt (behindNames i b)))
    (hk : k ≤ n) : IsPath (wopenPath f n b k) := by
  cases k with
  | zero => exact hpath
  | succ k =>
    rw [Trail.wopenPath_succ hk]
    exact isPath_appendPath _ (hnames k (Nat.lt_succ_self k))

theorem comes_parents (hanswer : Willing answer) (hmount : ∀ device, answer (.findMount device) = .ok none)
    (hread : ∀ i < n, Readable b i) (m : Nat) (hm : k + m < n) (hdir : 0 < m → f.qid.isDirectory)
    (hfound : ∀ i ≤ k + m, answer (.fstatat f.root.rootFd (wopenPath f n b i) false) = .ok directoryStat)
    (hg : Descended f n b k g) :
    ∃ g', Action.Comes answer (walkParents m k g) ⟨h, behindNames k b, w⟩ (.value (.ok (), g'))
      ⟨h, behindNames (k + m) b, w⟩ ∧ Descended f n b (k + m) g' := by
  induction m generalizing k g with
  | zero => exact ⟨g, rfl, hg⟩
  | succ m ih =>
    have hk : k < n := by omega
    obtain ⟨hstring, hname⟩ := hread k hk
    have hpath : appendPath g.fileName (stringAt (behindNames k b)) = wopenPath f n b (k + 1) := by
      rw [Trail.wopenPath_succ hk, hg.path]
    have hwalk := comes_walk hanswer hmount (hg.isDirectory (hdir (Nat.succ_pos m))) (stringAt (behindNames k b))
      (by rw [hpath, hg.root]; exact hfound (k + 1) (by omega))
    obtain ⟨g', hcomes, hg'⟩ := ih (k := k + 1) (by omega) (fun _ => hdir (Nat.succ_pos m))
      (fun i hi => hfound i (by omega)) (hg.below hk)
    rw [show k + 1 + m = k + (m + 1) by omega] at hcomes hg'
    refine ⟨g', (Action.comes_of_pure (name_run hstring hname)).bind ?_, hg'⟩
    rw [← behindNames_succ]
    exact (hwalk.withState _).bind hcomes

theorem comes_findCreated {flags : Nat} (hcreate : anySet flags OpenFlags.create)
    (hdirectory : anySet flags OpenFlags.directory) (name : Bytes) (mode retries : Nat) (entryQid : Qid) (c : Context) :
    Action.Comes working (findCreated name flags mode n retries true entryQid g) c
      (.value (.ok ⟨false, true, statToQid directoryStat⟩, g)) c := by
  rw [findCreated, if_pos hcreate]
  refine Action.Comes.bind (a := (.ok (statToQid directoryStat), true, g)) ?_ rfl
  rw [createItem, if_pos hdirectory]
  exact (comes_mkDir mode c).bind rfl

/-- What a request comes to that makes a directory. -/
def StaysAtParent (f : File) (n : Nat) (b : Bytes) (h : Handler) (w : MessageResponse) (env : Surroundings)
    (r : (Outcome Int Halt (WOpenResult WOpenItem × File) × Context) × Calls.Trace) : Prop :=
  ∃ g, Descended f n b (n - 1) g ∧ r.1.1 = .value (.ok ⟨false, true, statToQid directoryStat⟩, g) ∧
    r.1.2.handler = h ∧ r.1.2.response = w ∧ ∀ u e, r.2.length ≤ u.length → env u e = working e

theorem WithParent.stays_of_item {flags wflags k : Nat} (hwrong : WithParent h w f (k + 1) b flags wflags)
    (mode : Nat) {env : Surroundings} {g : File} {q : Option (Except Int Qid)} {t₁ t₂ : Calls.Trace}
    (hg : Descended f (k + 1) b k g) (hq : q = none ∨ q = some (.error enoent))
    (hparents : (walkParents k 0 f ⟨h, b, w⟩).interpret (Program.recording env) [] =
      ((.value (.ok (), g), ⟨h, behindNames k b, w⟩), t₁))
    (hitem : (walkItem (stringAt (behindNames k b)) flags g ⟨h, behindNames (k + 1) b, w⟩).interpret
      (Program.recording env) t₁ = ((.value (q, g), ⟨h, behindNames (k + 1) b, w⟩), t₂))
    (henv : ∀ u e, t₂.length ≤ u.length → env u e = working e) :
    StaysAtParent f (k + 1) b h w env
      ((locateItem flags mode (k + 1) f ⟨h, b, w⟩).interpret (Program.recording env) []) := by
  obtain ⟨hstring, hname⟩ := hwrong.readable k (Nat.lt_succ_self k)
  have hcreated := (comes_findCreated (g := g) (n := k + 1) hwrong.create hwrong.directory
    (stringAt (behindNames k b)) mode 2 f.qid ⟨h, behindNames (k + 1) b, w⟩).interpret t₂
    fun u e hle _ => henv u e hle
  have hend : (locateItem flags mode (k + 1) f ⟨h, b, w⟩).interpret (Program.recording env) [] =
      (findCreated (stringAt (behindNames k b)) flags mode (k + 1) 2 true f.qid g
        ⟨h, behindNames (k + 1) b, w⟩).interpret (Program.recording env) t₂ := by
    rw [locateItem, if_pos (Nat.succ_pos k), Nat.add_sub_cancel, Action.interpret_bind_of_value hparents]
    change ((SpanReader.name >>= fun name => findItem name flags mode (k + 1) createRetryCount true f.qid g)
      ⟨h, behindNames k b, w⟩).interpret _ t₁ = _
    rw [Action.bind_of_value (name_run hstring hname), ← behindNames_succ, show createRetryCount = 2 + 1 from rfl,
      findItem, Action.interpret_bind_of_value hitem]
    rcases hq with rfl | rfl
    · rfl
    · dsimp only
      rw [if_pos rfl, if_neg (not_not.mpr hwrong.create)]
      rfl
  rw [hend, hcreated]
  refine ⟨g, hg, rfl, rfl, rfl, fun u e hle => henv u e (le_trans ?_ hle)⟩
  rw [List.length_append]
  exact Nat.le_add_right _ _

theorem exists_stays {flags wflags : Nat} (hwrong : WithParent h w f n b flags wflags) (hpath : IsPath f.fileName)
    (mode : Nat) : ∃ env : Surroundings, (∀ t e, Lawful e (env t e)) ∧
      StaysAtParent f n b h w env ((locateItem flags mode n f ⟨h, b, w⟩).interpret (Program.recording env) []) := by
  obtain ⟨k, rfl⟩ := Nat.exists_eq_succ_of_ne_zero (Nat.ne_of_gt hwrong.names)
  obtain ⟨hstring, hname⟩ := hwrong.readable k (Nat.lt_succ_self k)
  have hdir (hk : 0 < k) : f.qid.isDirectory := hwrong.parent.resolve_right fun hone => by omega
  have hstart : Descended f (k + 1) b 0 f := ⟨rfl, rfl, rfl, Or.inl ⟨rfl, rfl⟩⟩
  by_cases hboth : allSet flags (OpenFlags.create ||| OpenFlags.exclusive)
  · -- the item is made at once
    obtain ⟨g, hparents, hg⟩ := comes_parents (h := h) (w := w) willing_working (fun _ => rfl) hwrong.readable k
      (by omega) hdir (fun _ _ => rfl) hstart
    rw [Nat.zero_add] at hparents hg
    have hitem : Action.Comes working (walkItem (stringAt (behindNames k b)) flags g)
        ⟨h, behindNames (k + 1) b, w⟩ (.value (none, g)) ⟨h, behindNames (k + 1) b, w⟩ := by
      rw [walkItem, if_pos hboth]
      rfl
    exact ⟨fun _ e => working e, fun _ => lawful_working, hwrong.stays_of_item mode hg (Or.inl rfl)
      (hparents.interpret [] fun _ _ _ _ => rfl) (hitem.interpret _ fun _ _ _ _ => rfl) fun _ _ _ => rfl⟩
  · -- the item is looked for, and is not there
    obtain ⟨g, hparents, hg⟩ := comes_parents (h := h) (w := w) (willing_lacking (wopenPath f (k + 1) b (k + 1)))
      (fun _ => rfl) hwrong.readable k (by omega) hdir (fun i hi => if_neg (pathBehind_ne
        (messageNames_getElem (Nat.lt_succ_self k) b) hname (by omega))) hstart
    rw [Nat.zero_add] at hparents hg
    have hbelow : appendPath g.fileName (stringAt (behindNames k b)) = wopenPath f (k + 1) b (k + 1) := by
      rw [Trail.wopenPath_succ (Nat.lt_succ_self k), hg.path]
    have hgdir : g.qid.isDirectory := hg.isDirectory <| hwrong.parent.resolve_right fun h =>
      hboth (allSet_create_exclusive_iff.mpr ⟨hwrong.create, h.2⟩)
    have hgpath : IsPath g.fileName := by
      rw [hg.path]
      exact isPath_wopenPath hpath (fun i hi => (hwrong.readable i (by omega)).2) (Nat.le_succ k)
    have hitem : Action.Comes (lacking (wopenPath f (k + 1) b (k + 1)))
        (walkItem (stringAt (behindNames k b)) flags g) ⟨h, behindNames (k + 1) b, w⟩
        (.value (some (.error enoent), g)) ⟨h, behindNames (k + 1) b, w⟩ := by
      rw [walkItem, if_neg hboth, ← hbelow]
      exact ((comes_walk_missing hgpath hname hgdir).withState _).bind rfl
    refine ⟨phased (lacking (wopenPath f (k + 1) b (k + 1))) (_ ++ _ : Calls.Trace).length,
      lawful_phased (lawful_lacking _) _, hwrong.stays_of_item mode hg (Or.inr rfl)
      (hparents.interpret [] fun u e _ hlt => ?_) (hitem.interpret _ fun u e _ hlt => ?_) fun u e hle => if_neg (Nat.not_lt.mpr hle)⟩
    · exact if_pos (hlt.trans_le (List.sublist_append_left _ _).length_le)
    · exact if_pos hlt

end Parents

/-! ## Requests -/

theorem WOpenStatus.code_injective {s s' : WOpenStatus} (h : leBytes 1 s.code = leBytes 1 s'.code) : s = s' := by
  cases s <;> cases s' <;> first | rfl | exact absurd h (by decide)

theorem wopenReply_status {s s' : WOpenStatus} {walked walked' : Nat} {qid qid' : Qid} {link link' : Bytes}
    {stat stat' : StatResult} (h : wopenReply s walked qid link stat = wopenReply s' walked' qid' link' stat') :
    s = s' := by
  have htake := congrArg (List.take 1) h
  simp only [wopenReply, List.append_assoc] at htake
  rw [List.take_left' (length_leBytes 1 _), List.take_left' (length_leBytes 1 _)] at htake
  exact WOpenStatus.code_injective htake

namespace WOpen

variable {h : Handler} {b : Bytes} {w : MessageResponse} {f : File}

theorem handleWOpen_run (huse : h.use9P2000W) (hlength : 34 ≤ b.length) (hf : h.fids (fid b) = some (.file f)) :
    handleWOpen ⟨h, b, w⟩ = (locateItem (flags b) (mode b) (nameCount b) f.clone >>= fun r =>
      match r.1 with
      | .error (status, walked) => writeWOpenReply status walked r.2 (mask b)
      | .ok item => finishItem (newFid b) (flags b) (wflags b) (mask b) (nameCount b) item r.2)
        ⟨h, names b, w⟩ := by
  have hread {k n : Nat} (hk : k + n ≤ 34) : SpanReader.uint n ⟨h, b.drop k, w⟩ =
      pure (.value (leAt k n b), ⟨h, b.drop (k + n), w⟩) := by
    have hle : n ≤ (b.drop k).length := by
      rw [List.length_drop]
      omega
    have hrun := uint_run (h := h) (w := w) hle
    rwa [leAt_drop, List.drop_drop] at hrun
  have hfid : SpanReader.uint 4 ⟨h, b, w⟩ = pure (.value (fid b), ⟨h, b.drop 4, w⟩) :=
    hread (k := 0) (by decide)
  rw [handleWOpen, Action.bind_of_value rfl, if_neg (not_not.mpr huse), Action.bind_of_value hfid,
    Action.bind_of_value (hread (by decide)), Action.bind_of_value (hread (by decide)),
    Action.bind_of_value (hread (by decide)), Action.bind_of_value (hread (by decide)),
    Action.bind_of_value (hread (by decide)), Action.bind_of_value (hread (by decide)),
    Action.bind_of_value (hread (by decide)), Action.bind_of_value (lookupFile_run hf)]
  rfl

/-- The reply and the new fid of a request that completes. -/
structure CreatedReply (h : Handler) (b : Bytes) (g : File) (c : Context) : Prop where
  reply : ∃ walked qid link stat, c.response.written = wopenReply .created walked qid link stat
  fids : c.handler.fids = Function.update h.fids (newFid b) (some (.file g))

theorem CreatedReply.denotes {g : File} {c : Context} {H : List Event} (hc : CreatedReply h b g c)
    (hf : h.fids (fid b) = some (.file f)) (hupholds : Upholds h b c H) : ∃ qid stat,
    Denotes f.clone (nameCount b) (names b) (mask b) H .created qid stat g := by
  obtain ⟨walked, qid, link, stat, hwritten⟩ := hc.reply
  obtain ⟨f', status, walked', qid', link', stat', hf', hwritten', -, hopen⟩ := hupholds
  obtain rfl : f = f' := by
    rw [hf] at hf'
    cases hf'
    rfl
  obtain rfl : WOpenStatus.created = status := wopenReply_status (hwritten.symm.trans hwritten')
  obtain ⟨g', hfids, hdenotes⟩ := hopen fun hstop => hstop.2 rfl
  have hsame := congrFun (hc.fids.symm.trans hfids) (newFid b)
  rw [Function.update_self, Function.update_self] at hsame
  cases hsame
  exact ⟨qid', stat', hdenotes⟩

/-- What a request promises is kept in every environment. -/
def Upheld (h : Handler) (b : Bytes) (w : MessageResponse) : Prop :=
  ∀ env : Surroundings, (∀ t e, Lawful e (env t e)) →
    Action.EndsOn (fun _ c t => Upholds h b c (events t)) (fun _ c _ => c.handler.fids = h.fids)
      (fun _ _ _ => True) ((handleWOpen ⟨h, b, w⟩).interpret (Program.recording env) [])

theorem Upheld.denotes {env : Surroundings} {g : File} {c : Context} {t : Calls.Trace} (hupheld : Upheld h b w)
    (henv : ∀ t e, Lawful e (env t e)) (hf : h.fids (fid b) = some (.file f))
    (hrun : (handleWOpen ⟨h, b, w⟩).interpret (Program.recording env) [] = ((.value (), c), t))
    (hc : CreatedReply h b g c) : ∃ qid stat,
    Denotes f.clone (nameCount b) (names b) (mask b) (events t) .created qid stat g := by
  have hends := hupheld env henv
  rw [hrun] at hends
  exact hc.denotes hf hends

theorem not_upheld_withoutItem (hw : w.written = []) (huse : h.use9P2000W) (hlength : 34 ≤ b.length)
    (hfree : h.fids (newFid b) = none) (hf : h.fids (fid b) = some (.file f)) (hpath : IsPath f.fileName)
    (hwrong : WithoutItem h w f.clone (nameCount b) (flags b) (wflags b)) : ¬ Upheld h b w := by
  intro hupheld
  have hlocate : Action.Comes working (locateItem (flags b) (mode b) (nameCount b) f.clone) ⟨h, names b, w⟩
      (.value (.ok ⟨false, true, f.clone.qid⟩, f.clone)) ⟨h, names b, w⟩ := by
    rw [hwrong.names]
    rfl
  obtain ⟨c, hfinish, ⟨g, -, hhandler⟩, hwritten⟩ := completes_finishItem (b := names b)
    ⟨false, true, f.clone.qid⟩ (nameCount b) (mask b) hw rfl hwrong.type hwrong.directory hwrong.delete hwrong.link
    hwrong.room hfree
  have hcomes : Action.Comes working handleWOpen ⟨h, b, w⟩ (.value ()) c := by
    rw [Action.Comes, handleWOpen_run huse hlength hf]
    exact hlocate.bind hfinish
  have hrun : (handleWOpen ⟨h, b, w⟩).interpret (Program.recording fun _ e => working e) [] = _ :=
    hcomes.interpret [] fun _ _ _ _ => rfl
  have hlawful : ∀ (t : Calls.Trace) e, Lawful e (working e) := fun _ => lawful_working
  obtain ⟨qid, stat, hdenotes⟩ := hupheld.denotes hlawful hf hrun
    ⟨⟨_, _, _, _, hwritten⟩, congrArg Handler.fids hhandler⟩
  have hends := does_handleWOpen hlawful hw (fun f' hf' => by
    rw [hf] at hf'
    cases hf'
    exact hpath) ⟨h, b, w⟩ [] ⟨rfl, rfl⟩
  rw [hrun] at hends
  obtain ⟨-, f', -, status, walked, qid', link, stat', hwritten', hcase⟩ := hends
  obtain rfl : WOpenStatus.created = status := wopenReply_status (hwritten.symm.trans hwritten')
  rcases hcase with ⟨hstop, -⟩ | ⟨-, -, g', -, ⟨hpos, -⟩ | ⟨-, hmade⟩ | hparent⟩
  · exact hstop.2 rfl
  · exact absurd hwrong.names (Nat.ne_of_gt hpos)
  · exact hmade _ _ (hdenotes.created.mp rfl)
  · exact absurd hwrong.names (Nat.ne_of_gt hparent.names)

theorem not_upheld_withParent (hw : w.written = []) (huse : h.use9P2000W) (hlength : 34 ≤ b.length)
    (hfree : h.fids (newFid b) = none) (hf : h.fids (fid b) = some (.file f)) (hpath : IsPath f.fileName)
    (hwrong : WithParent h w f.clone (nameCount b) (names b) (flags b) (wflags b)) : ¬ Upheld h b w := by
  intro hupheld
  obtain ⟨env, henv, hstays⟩ := exists_stays (f := f.clone) hwrong hpath (mode b)
  generalize hlocate : (locateItem (flags b) (mode b) (nameCount b) f.clone ⟨h, names b, w⟩).interpret
    (Program.recording env) [] = r at hstays
  obtain ⟨⟨o, ⟨h', b', w'⟩⟩, t⟩ := r
  obtain ⟨g, hg, rfl, rfl, rfl, hworks⟩ := hstays
  have hqid : g.qid = f.clone.qid ∧ nameCount b = 1 ∨ g.qid = statToQid directoryStat ∧ nameCount b ≠ 1 := by
    have hpos := hwrong.names
    rcases hg.qid with ⟨hone, rfl⟩ | ⟨hmore, hqid⟩
    · exact Or.inl ⟨rfl, by omega⟩
    · exact Or.inr ⟨hqid, by omega⟩
  have hdirectory : (statToQid directoryStat).isDirectory := by decide
  have hroom : HasRoom h' w' .wopen (wopenExtra g.qid) := by
    have hroom := hwrong.room
    rcases hqid with ⟨hqid, hone⟩ | ⟨hqid, hmore⟩
    · rw [if_pos hone] at hroom
      rw [hqid]
      exact hroom
    · rw [if_neg hmore] at hroom
      rw [hqid]
      exact hroom
  have hdelete : anySet (wflags b) WOpenFlags.deleteAccess → g.fileName ≠ [] := by
    intro hdel
    rw [hg.path]
    by_cases hone : nameCount b = 1
    · rw [hone]
      exact hwrong.delete hdel hone
    · obtain ⟨k, hk⟩ : ∃ k, nameCount b - 1 = k + 1 := ⟨nameCount b - 2, by have := hwrong.names; omega⟩
      rw [hk]
      exact wopenPath_ne_nil (by omega) (hwrong.readable k (by omega))
  obtain ⟨c, hfinish, ⟨g', hname, hhandler⟩, hwritten⟩ := completes_finishItem (b := b')
    ⟨false, true, statToQid directoryStat⟩ (nameCount b) (mask b) hw (hg.state.trans rfl)
    (fun h => hwrong.type h.1) (fun h => h.2 hdirectory) hdelete
    (fun h => not_directory_of_symlink h.1 hdirectory) hroom hfree
  have hrun := hfinish.interpret t fun u e hle _ => hworks u e hle
  have hwhole := (congrArg (Program.interpret (Program.recording env) · [])
    (handleWOpen_run (w := w') huse hlength hf)).trans ((Action.interpret_bind_of_value hlocate).trans hrun)
  obtain ⟨qid, stat, hdenotes⟩ := hupheld.denotes henv hf hwhole
    ⟨⟨_, _, _, _, hwritten⟩, congrArg Handler.fids hhandler⟩
  have hlast := hwrong.readable (nameCount b - 1) (by have := hwrong.names; omega)
  have hne : wopenPath f.clone (nameCount b) (names b) (nameCount b - 1) ≠
      wopenPath f.clone (nameCount b) (names b) (nameCount b - 1 + 1) :=
    pathBehind_ne (messageNames_getElem (by have := hwrong.names; omega) (names b)) hlast.2 le_rfl
  rw [Nat.sub_add_cancel hwrong.names] at hne
  exact hne (hg.path.symm.trans (hname.symm.trans hdenotes.path))

theorem upheld_iff (hw : w.written = []) (hnamed : h.Named) : Upheld h b w ↔ ¬ GoesWrong h b w := by
  constructor
  · rintro hupheld ⟨huse, hlength, hfree, f, hf, hwithout | hparent⟩
    · exact not_upheld_withoutItem hw huse hlength hfree hf (hnamed _ _ hf) hwithout hupheld
    · exact not_upheld_withParent hw huse hlength hfree hf (hnamed _ _ hf) hparent hupheld
  · exact fun hright env henv => upholds_of_not_goesWrong henv hw (fun f hf => hnamed _ _ hf) hright

end WOpen

namespace Clients

/-- **A `Twopen` is answered rightly in every environment exactly if it does not go wrong**, whatever requests
have been handled before. -/
theorem wopen_upheld_iff {allowRenegotiate : Bool} {s : Clients}
    (hs : Reaches step (fun _ _ => True) (fresh allowRenegotiate) s) (b : Bytes) {w : MessageResponse}
    (hw : w.written = []) : WOpen.Upheld s.handler b w ↔ ¬ WOpen.GoesWrong s.handler b w :=
  WOpen.upheld_iff hw (named_of_reaches hs)

/-- `Tversion` of `9P2000.W`. -/
def arrivingVersion : Arrival :=
  arriving .version (leBytes 4 8192 ++ leBytes 2 protocolVersionW.length ++ protocolVersionW)

/-- `Twopen` of the fid `0` as the fid `1`, by some names and without flags. -/
def wopenBody (names : List Bytes) : Bytes :=
  leBytes 4 0 ++ leBytes 4 1 ++ leBytes 4 0 ++ leBytes 4 0 ++ leBytes 4 0 ++ leBytes 4 0 ++ leBytes 8 0 ++
    leBytes 2 names.length ++ (names.map fun s => leBytes 2 s.length ++ s).flatten

def socketResponse : MessageResponse := .ofSize staticBufferSize true headerSize_le_static

theorem exists_attached : ∃ s, Reaches step (fun _ _ => True) (fresh false) s ∧ s.handler.use9P2000W ∧
    s.handler.negotiatedSize = 8192 ∧ s.handler.fids 1 = none ∧
    ∃ f, s.handler.fids 0 = some (.file f) ∧ f.fileName = [] ∧ f.qid = statToQid directoryStat := by
  obtain ⟨s₁, h₁, s₂, h₂, hs₂⟩ : ∃ s₁, (fresh false).step arrivingVersion = some s₁ ∧
      ∃ s₂, s₁.step arrivingAttach = some s₂ ∧ s₂.handler.use9P2000W ∧ s₂.handler.negotiatedSize = 8192 ∧
        s₂.handler.fids 1 = none ∧
        ∃ f, s₂.handler.fids 0 = some (.file f) ∧ f.fileName = [] ∧ f.qid = statToQid directoryStat :=
    ⟨_, rfl, _, rfl, rfl, rfl, rfl, _, rfl, rfl, rfl⟩
  exact ⟨s₂, (Reaches.start.step trivial h₁).step trivial h₂, hs₂⟩

theorem wopen_upheld_name : ∃ s, Reaches step (fun _ _ => True) (fresh false) s ∧ s.handler.use9P2000W ∧
    WOpen.Upheld s.handler (wopenBody [ascii "a"]) socketResponse := by
  obtain ⟨s, hs, huse, -⟩ := exists_attached
  refine ⟨s, hs, huse, (wopen_upheld_iff hs _ rfl).mpr ?_⟩
  rintro ⟨-, -, -, f, -, hwithout | hparent⟩
  · exact absurd hwithout.names (by decide)
  · exact absurd hparent.create (by decide)

/-- A request without names is answered as if it had created the file that is there. -/
theorem wopen_not_upheld : ¬ ∀ s, Reaches step (fun _ _ => True) (fresh false) s → ∀ b (w : MessageResponse),
    w.written = [] → WOpen.Upheld s.handler b w := by
  intro hall
  obtain ⟨s, hs, huse, hsize, hfree, f, hf, hname, hqid⟩ := exists_attached
  refine WOpen.not_upheld_withoutItem (b := wopenBody []) (w := socketResponse) rfl huse (by decide) hfree hf
    (hname ▸ isPath_nil) ?_ (hall s hs _ _ rfl)
  refine ⟨rfl, fun h => absurd h.1 (by decide), fun h => absurd h.1 (by decide), fun h => absurd h (by decide),
    fun h => ?_, ?_⟩
  · exact not_directory_of_symlink (hqid ▸ h.1 : (statToQid directoryStat).isSymlink) (by decide)
  · rw [show f.clone.qid = statToQid directoryStat from hqid]
    exact ⟨hsize ▸ (by decide), Or.inr rfl⟩

end Clients

end WslFreeBSD.Plan9
