import WslFreeBSD.Lib.Systems
import WslFreeBSD.Plan9.HandlerRuns
import WslFreeBSD.Plan9.WOpen

/-!
# Handlers over a system that works

A system in which every call is successful and every path is a directory. Over it a request is handled up
to the place where it goes wrong for itself: behind the end of the message, or of the response.
-/

namespace WslFreeBSD.Plan9

open Lib

def directoryStat : Stat := ⟨1, 2, 0o040755, 2, 0, 0, 0, 0, 0, 0, (0, 0), (0, 0), (0, 0)⟩

/-- The length of the values of extended attributes, unless there is less room for them. -/
def workingLength (size : Nat) : Nat := if size = 0 then 300 else min 300 size

theorem workingLength_le (size : Nat) : size = 0 ∨ workingLength size ≤ size := by
  by_cases h : size = 0
  · exact .inl h
  · rw [workingLength, if_neg h]
    exact .inr (Nat.min_le_right _ _)

def working : (e : Syscall) → e.Answer
  | .setgroups _ | .setresgid _ | .setresuid _ => .ok ()
  | .fstatat _ _ _ | .fstat _ => .ok directoryStat
  | .openat _ _ _ _ | .openPath _ _ => .ok 3
  | .fdPath _ => .ok (ascii "/share")
  | .readlinkat _ _ _ => .ok ⟨[], Nat.zero_le _, Nat.zero_le _⟩
  | .mkdirat _ _ _ | .unlinkat _ _ _ | .renameat _ _ _ | .symlinkat _ _ _ | .linkat _ _ _
  | .mknodat _ _ _ _ _ | .ftruncate _ _ | .fchmodat _ _ _ | .fchownat _ _ _ _ | .utimensat _ _ _ _
  | .faccessat _ _ _ | .fsync _ => .ok ()
  | .capget => .ok true
  | .fstatfs _ => .ok ⟨0, 0, 0, 0, 0, 0, 0, 0, 0⟩
  | .aioRead _ _ _ => .done ⟨[], Nat.zero_le _⟩
  | .aioWrite _ _ _ => .done ⟨0, Nat.zero_le _⟩
  | .fdopendir _ => .ok ()
  | .rewinddir _ | .seekdir _ _ => ()
  | .readdir _ => .ok none
  | .findMount _ => .ok none
  | .lgetxattr _ _ size | .llistxattr _ size =>
    .ok ⟨List.replicate (workingLength size) 0, List.length_replicate ▸ workingLength_le size⟩
  | .lsetxattr _ _ _ _ | .lremovexattr _ _ | .allocate _ => .ok ()
  | .unwritten size => ⟨List.replicate size 0, length_unwritten size⟩
  | .share _ => some 3
  | .geteuid | .getUserGroupId _ | .getGroupIdByName _ => 0
  | .getgrouplist _ _ => some []

theorem restored_working (e : Syscall) : Restored e (working e) := by
  unfold Restored
  split <;> first | rfl | trivial

variable {σ α : Type}

/-- A system in which every identity can be taken. -/
structure Willing (answer : (e : Syscall) → e.Answer) : Prop where
  groups (l : List Nat) : answer (.setgroups l) = .ok ()
  gid (n : Nat) : answer (.setresgid n) = .ok ()
  uid (n : Nat) : answer (.setresuid n) = .ok ()

theorem willing_working : Willing working := ⟨fun _ => rfl, fun _ => rfl, fun _ => rfl⟩

section Willing

variable {answer : (e : Syscall) → e.Answer} (hanswer : Willing answer)

include hanswer

theorem Willing.enterUser (root : Root) (s : σ) :
    Action.Comes answer ((enterUser root).embed : Op σ Unit) s (.value ()) s := by
  have hids : Action.Comes answer (do
      orThrow (← Action.call (.setresgid root.gid))
      orThrow (← Action.call (.setresuid root.uid)) : Calls Unit) () (.value ()) () :=
    .call_then (hanswer.gid _) (.call_then (hanswer.uid _) rfl)
  refine Action.Comes.embed ?_ s
  rw [Plan9.enterUser]
  split
  · refine .call_then (hanswer.groups _) ?_
    change Action.Comes answer (if _ then _ else _) _ _ _
    split
    · exact hids
    · rfl
  · split
    · exact hids
    · rfl

theorem Willing.leaveUser (root : Root) (s : σ) : Action.Comes answer (leaveUser root) s (.value ()) s := by
  have hgroups : Action.Comes answer (do
      if root.groups ≠ [] then orThrow (← Action.call (.setgroups [])) : Calls Unit) () (.value ()) () := by
    split
    · exact .call_then (hanswer.groups _) rfl
    · rfl
  have hrestore : Action.Comes answer (restoreUser root) () (.value ()) () := by
    rw [restoreUser]
    split
    · exact .call_then (hanswer.uid _) (.call_then (hanswer.gid _) hgroups)
    · exact hgroups
  rw [Action.Comes, Plan9.leaveUser, destructor, Program.evalWith_bind, hrestore]
  rfl

theorem Willing.withUser (root : Root) {m : Op σ α} {s s' : σ} {a : α}
    (hm : Action.Comes answer m s (.value a) s') :
    Action.Comes answer (withUser root m) s (.value a) s' :=
  (hanswer.enterUser root s).bind (hm.andFinally (hanswer.leaveUser root s'))

end Willing

theorem comes_withUser (root : Root) {m : Op σ α} {s s' : σ} {a : α}
    (hm : Action.Comes working m s (.value a) s') :
    Action.Comes working (withUser root m) s (.value a) s' := willing_working.withUser root hm

/-! ## Names of a `Twopen` -/

def File.below (f : File) (name : Bytes) : File :=
  { f with fileName := appendPath f.fileName name, qid := statToQid directoryStat, device := directoryStat.dev }

theorem File.below_isDirectory (f : File) (name : Bytes) : (f.below name).qid.isDirectory := by
  change (statToQid directoryStat).isDirectory
  decide

section Walks

variable {answer : (e : Syscall) → e.Answer} {f : File}

theorem comes_stat {r : Except Errno Stat} (hr : answer (.fstatat f.root.rootFd f.fileName false) = r) :
    Action.Comes answer f.stat () (.value (expected r)) () := .call_then hr rfl

theorem comes_validateExists (hst : answer (.fstatat f.root.rootFd f.fileName false) = .ok directoryStat) :
    Action.Comes answer File.validateExists f (.value (.ok ()))
      { f with qid := statToQid directoryStat, device := directoryStat.dev } :=
  Action.comes_get.bind (((comes_stat hst).embed f).bind rfl)

theorem comes_findChild (hmount : ∀ device, answer (.findMount device) = .ok none) (parentDevice : Nat)
    (hst : answer (.fstatat f.root.rootFd f.fileName false) = .ok directoryStat) :
    Action.Comes answer (File.findChild parentDevice) f (.value (.ok (statToQid directoryStat)))
      { f with qid := statToQid directoryStat, device := directoryStat.dev } := by
  refine (comes_validateExists hst).bind ?_
  have hallowed (device : Nat) : Action.Comes answer (File.mountAllowed device) () (.value true) () :=
    .call_then (hmount device) rfl
  refine Action.comes_get.bind ?_
  split
  · exact ((hallowed _).embed _).bind rfl
  · rfl

theorem comes_walk (hanswer : Willing answer) (hmount : ∀ device, answer (.findMount device) = .ok none)
    (hdir : f.qid.isDirectory) (name : Bytes)
    (hst : answer (.fstatat f.root.rootFd (appendPath f.fileName name) false) = .ok directoryStat) :
    Action.Comes answer (File.walk name) f (.value (.ok (statToQid directoryStat))) (f.below name) := by
  have hchild := hanswer.withUser f.root
    (comes_findChild (f := { f with fileName := appendPath f.fileName name }) hmount f.device hst)
  refine Action.comes_get.bind ?_
  rw [if_pos hdir]
  refine Action.comes_modify.bind ?_
  rw [Action.Comes, File.scopeExit, Program.evalWith_bind, hchild]
  rfl

end Walks

variable {h : Handler} {b : Bytes} {w : MessageResponse} {fields : List Field} {o : Outcome Int Halt α}
  {c : Context}

theorem uint_then_comes {n : Nat} {k : Nat → Op Context α} (hb : holds (.int n :: fields) b)
    (hk : holds fields (b.drop n) → Action.Comes working (k (leAt 0 n b)) ⟨h, b.drop n, w⟩ o c) :
    Action.Comes working (SpanReader.uint n >>= k) ⟨h, b, w⟩ o c := by
  rw [holds_int] at hb
  exact (Action.comes_of_pure (uint_run hb.1)).bind (hk hb.2)

theorem string_then_comes {k : Bytes → Op Context α} (hb : holds (.string :: fields) b)
    (hk : holds fields (b.drop (2 + stringLength b)) →
      Action.Comes working (k (stringAt b)) ⟨h, b.drop (2 + stringLength b), w⟩ o c) :
    Action.Comes working (SpanReader.string >>= k) ⟨h, b, w⟩ o c := by
  rw [holds_string] at hb
  exact (Action.comes_of_pure (string_run hb.1)).bind (hk hb.2)

/-- The names of a `Twopen` are looked up, each in a directory, until one is cut off. -/
theorem comes_walkParents {n : Nat} (walked : Nat) {file : File} (hb : ¬ neededNames file n b) :
    (∃ c, Action.Comes working (walkParents n walked file) ⟨h, b, w⟩ (.halted .readPast) c) ∨
      ∃ file' b', Action.Comes working (walkParents n walked file) ⟨h, b, w⟩ (.value (.ok (), file'))
        ⟨h, b', w⟩ ∧ ¬ holdsString b' := by
  induction n generalizing walked file b with
  | zero =>
    refine .inr ⟨file, b, rfl, fun hstring => hb ?_⟩
    simp [neededNames, holds, hstring]
  | succ n ih =>
    by_cases hstring : holdsString b
    · have hdir : file.qid.isDirectory := by
        by_contra hdir
        apply hb
        rw [neededNames, if_neg hdir]
        exact holds_name.mpr ⟨hstring, fun _ => rfl⟩
      rw [neededNames, if_pos hdir, List.replicate_succ, holds_name, not_and, Classical.not_imp] at hb
      obtain ⟨hname, hrest⟩ := hb hstring
      -- one name is looked up, and the rest in the directory that it is
      have hwalk := (comes_walk willing_working (fun _ => rfl) hdir (stringAt b) rfl).withState
        (⟨h, b.drop (2 + stringLength b), w⟩ : Context)
      have hstep {o : Outcome Int Halt (WOpenResult Unit × File)} {c : Context}
          (hnext : Action.Comes working (walkParents n (walked + 1) (file.below (stringAt b)))
            ⟨h, b.drop (2 + stringLength b), w⟩ o c) :
          Action.Comes working (walkParents (n + 1) walked file) ⟨h, b, w⟩ o c :=
        (Action.comes_of_pure (name_run hstring hname)).bind (hwalk.bind hnext)
      have hbelow : ¬ neededNames (file.below (stringAt b)) n (b.drop (2 + stringLength b)) := by
        rwa [neededNames, if_pos (file.below_isDirectory _)]
      rcases ih (walked + 1) hbelow with ⟨c, hc⟩ | ⟨file', b', hc, hshort⟩
      · exact .inl ⟨c, hstep hc⟩
      · exact .inr ⟨file', b', hstep hc, hshort⟩
    · obtain ⟨c, hc⟩ := name_short (h := h) (w := w) hstring
      exact .inl ⟨c, (Action.comes_of_pure hc).halted⟩

theorem comes_locateItem (flags mode : Nat) {nameCount : Nat} (file : File) (hcount : 0 < nameCount)
    (hb : ¬ neededNames file (nameCount - 1) b) :
    ∃ c, Action.Comes working (locateItem flags mode nameCount file) ⟨h, b, w⟩ (.halted .readPast) c := by
  rw [locateItem, if_pos hcount]
  rcases comes_walkParents (h := h) (w := w) 0 hb with ⟨c, hc⟩ | ⟨file', b', hc, hshort⟩
  · exact ⟨c, hc.halted⟩
  · obtain ⟨c, hname⟩ := name_short (h := h) (w := w) hshort
    exact ⟨c, hc.bind (Action.comes_of_pure hname).halted⟩

theorem comes_wopen (huse : h.use9P2000W) (hfields : holds (requestFields .wopen) b)
    (hb : ¬ wopenHolds h b) :
    ∃ c, Action.Comes working handleWOpen ⟨h, b, w⟩ (.halted .readPast) c := by
  obtain ⟨f, hf, hcount, hnames⟩ : ∃ f, h.fids (leAt 0 4 b) = some (.file f) ∧
      0 < leAt 0 2 (b.drop 32) ∧ ¬ neededNames f (leAt 0 2 (b.drop 32) - 1) (b.drop 34) := by
    by_contra hno
    refine hb ⟨hfields, fun f hf hcount => ?_⟩
    by_contra hnames
    exact hno ⟨f, hf, hcount, hnames⟩
  obtain ⟨c, hc⟩ := comes_locateItem (h := h) (w := w) (leAt 0 4 (b.drop 8)) (leAt 0 4 (b.drop 16)) f.clone
    hcount hnames
  refine ⟨c, Action.comes_get.bind ?_⟩
  rw [if_neg (not_not.mpr huse)]
  refine uint_then_comes hfields fun hfields => uint_then_comes hfields fun hfields =>
    uint_then_comes hfields fun hfields => uint_then_comes hfields fun hfields =>
    uint_then_comes hfields fun hfields => uint_then_comes hfields fun hfields =>
    uint_then_comes hfields fun hfields => uint_then_comes hfields fun hfields => ?_
  simp only [List.drop_drop, Nat.reduceAdd]
  exact (Action.comes_of_pure (lookupFile_run hf)).bind hc.halted

/-! ## Replies that are too long -/

theorem string_past {s : Bytes} (hsize : w.size < headerSize + (w.written.length + 2 + s.length)) :
    ∃ c, SpanWriter.string s ⟨h, b, w⟩ = pure (.halted .writePast, c) := by
  rw [SpanWriter.string]
  split
  · exact ⟨_, rfl⟩
  · refine write_then_past fun w' hw' hwritten => ⟨_, write_past fun hfits => ?_⟩
    rw [length_leBytes] at hwritten
    rw [List.length_append, hw', hwritten] at hfits
    omega

theorem length_of_getlock (hb : holds (requestFields .getlock) b) :
    27 + (stringAt (b.drop 25)).length ≤ b.length := by
  simp only [requestFields, holds_int, holds_string, List.drop_drop, Nat.reduceAdd] at hb
  obtain ⟨-, -, -, -, -, hstring, -⟩ := hb
  have hlength := (holdsString_iff.mp hstring).2
  have := length_stringAt_le (b.drop 25)
  rw [List.length_drop] at hlength
  omega

theorem comes_getLock {f : File} (hfields : holds (requestFields .getlock) b)
    (hf : h.fids (leAt 0 4 b) = some (.file f)) (hopen : f.isOpen) (hnegotiated : 30 ≤ h.negotiatedSize)
    (hw : w.written = []) (hmin : 30 ≤ w.size) (hsize : w.size < 30 + (stringAt (b.drop 25)).length) :
    ∃ c, Action.Comes working handleGetLock ⟨h, b, w⟩ (.halted .writePast) c := by
  have hlock (start length procId : Nat) (clientId : Bytes) (c : Context) :
      (f.getLock start length procId clientId).embed (η := Halt) c =
        pure (.value (File.lockUnlock, start, length, procId, clientId), c) := by
    rw [File.getLock, if_pos hopen]
    rfl
  have hwrite (type start length procId : Nat) (b' : Bytes) :
      ∃ c, (do
        SpanWriter.uint 1 type
        SpanWriter.uint 8 start
        SpanWriter.uint 8 length
        SpanWriter.uint 4 procId
        SpanWriter.string (stringAt (b.drop 25)) : Op Context Unit) ⟨h, b', w⟩ =
          pure (.halted .writePast, c) := by
    refine write_then_past fun w₁ h₁ hw₁ => write_then_past fun w₂ h₂ hw₂ =>
      write_then_past fun w₃ h₃ hw₃ => write_then_past fun w₄ h₄ hw₄ => string_past ?_
    simp only [length_leBytes, hw, List.length_nil] at hw₁ hw₂ hw₃ hw₄
    rw [h₄, h₃, h₂, h₁, hw₄, hw₃, hw₂, hw₁, headerSize]
    omega
  obtain ⟨c, hc⟩ := hwrite File.lockUnlock (leAt 0 8 (b.drop 5)) (leAt 0 8 (b.drop 13))
    (leAt 0 4 (b.drop 21)) ((b.drop 25).drop (2 + stringLength (b.drop 25)))
  refine ⟨c, uint_then_comes hfields fun hfields => uint_then_comes hfields fun hfields =>
    uint_then_comes hfields fun hfields => uint_then_comes hfields fun hfields =>
    uint_then_comes hfields fun hfields => string_then_comes hfields fun _ => ?_⟩
  simp only [List.drop_drop, Nat.reduceAdd] at hc ⊢
  refine (Action.comes_of_pure (lookupFile_run hf)).bind ?_
  refine (Action.comes_of_pure (hlock ..)).bind ?_
  exact (Action.comes_of_pure (ensureSize_run hnegotiated hmin)).bind (Action.comes_of_pure hc)

theorem comes_getValue (x : XAttr) (s : σ) : ∃ value : {s : Bytes // 0 = 0 ∨ s.length ≤ 0},
    Action.Comes working (x.getValue 0) s (.value value) s ∧ value.val.length = 300 := by
  refine ⟨⟨List.replicate (workingLength 0) 0, .inl rfl⟩, comes_withUser x.root ?_, List.length_replicate⟩
  by_cases hname : x.name = []
  · rw [if_neg (not_not.mpr hname)]
    rfl
  · rw [if_pos hname]
    rfl

theorem comes_read {x : XAttr} (hfields : holds (requestFields .read) b)
    (hx : h.fids (leAt 0 4 b) = some (.xattr x)) (haccess : x.access = .read)
    (hoffset : leAt 0 8 (b.drop 4) = 0) (hcount : leAt 0 4 (b.drop 12) = 0)
    (hnegotiated : 11 ≤ h.negotiatedSize) (hw : w.written = []) (hmin : 11 ≤ w.size)
    (hsize : w.size < 311) :
    ∃ c, Action.Comes working handleRead ⟨h, b, w⟩ (.halted .writePast) c := by
  obtain ⟨value, hvalue, hlength⟩ := comes_getValue x (⟨h, b.drop 16, w⟩ : Context)
  have hread : Action.Comes working (x.read 0 0) (⟨h, b.drop 16, w⟩ : Context)
      (.value (List.replicate value.val.length 0)) ⟨h, b.drop 16, w⟩ := by
    rw [XAttr.read, if_neg (by simp [haccess])]
    exact hvalue.bind rfl
  have hpeek : Action.Comes working (SpanWriter.peek 4) ⟨h, b.drop 16, w⟩ (.value ()) ⟨h, b.drop 16, w⟩ := by
    have hroom : ¬ w.remaining < 4 := by
      rw [MessageResponse.remaining, hw, headerSize, List.length_nil]
      omega
    refine Action.comes_get.bind ?_
    rw [if_neg hroom]
    rfl
  obtain ⟨c, hc⟩ : ∃ c, (do
      SpanWriter.uint 4 (List.replicate value.val.length (0 : UInt8)).length
      SpanWriter.write (List.replicate value.val.length 0) : Op Context Unit) ⟨h, b.drop 16, w⟩ =
        pure (.halted .writePast, c) := by
    refine write_then_past fun w' hw' hwritten => ⟨_, write_past fun hfits => ?_⟩
    rw [length_leBytes, hw] at hwritten
    rw [List.length_append, hw', hwritten, List.length_replicate, hlength] at hfits
    simp only [headerSize, List.length_nil] at hfits
    omega
  refine ⟨c, uint_then_comes hfields fun hfields => uint_then_comes hfields fun hfields =>
    uint_then_comes hfields fun _ => ?_⟩
  simp only [List.drop_drop, Nat.reduceAdd]
  rw [hoffset, hcount]
  refine (Action.comes_of_pure (lookupFid_run hx)).bind ?_
  refine (Action.comes_of_pure (ensureSize_run hnegotiated hmin)).bind ?_
  exact hpeek.bind (hread.bind (Action.comes_of_pure hc))

end WslFreeBSD.Plan9
