import WslFreeBSD.Plan9.Contracts

/-!
# The contract of `Twopen`

The names of a `Twopen` are read one by one while they are looked up, so that how much of the message is
needed depends on how far the names are resolved: all names if the first file is a directory, and only
the first one if it is not. The new fid is there only behind everything that can fail.
-/

namespace WslFreeBSD.Plan9

open Lib

variable {S : Setting} {T : Terms} {h : Handler} {b : Bytes} {w : MessageResponse}
  {c : Context}

/-- The names that are read of a message if `parents` names come before the last one. -/
def neededNames (file : File) (parents : Nat) (b : Bytes) : Bool :=
  holds (List.replicate (if file.qid.isDirectory then parents + 1 else 1) .name) b

theorem neededNames_of_all {file : File} {parents : Nat} {b : Bytes}
    (h : holds (List.replicate (parents + 1) .name) b) : neededNames file parents b := by
  rw [neededNames]
  split
  · exact h
  · rw [List.replicate_succ, holds, Bool.and_eq_true, Bool.or_eq_true] at h
    simpa [holds] using h.1

/-- What is read of the body of a `Twopen`. -/
def wopenHolds (h : Handler) (b : Bytes) : Prop :=
  holds (requestFields .wopen) b ∧ ∀ f, h.fids (leAt 0 4 b) = some (.file f) → 0 < leAt 0 2 (b.drop 32) →
    neededNames f (leAt 0 2 (b.drop 32) - 1) (b.drop 34)

/-! ## The reply -/

theorem writes_attributes {stat : StatResult} {room : Nat} (hroom : 136 ≤ room) :
    Writes S T h [.int 1, .int 2, .int qidSize, .string] room (do
        SpanWriter.uint 4 ioUnit
        SpanWriter.write (statResultBytes stat)
        SpanWriter.uint 8 0
        SpanWriter.uint 8 0
        SpanWriter.uint 8 0
        SpanWriter.uint 8 0) (fun _ => Wrote h (replyFields .wopen) [] 0) (T.Failed S h) := by
  refine putUint_then (by omega) ?_
  refine write_then (f := .int statResultSize) (length_statResultBytes stat) (length_statResultBytes stat) ?_ ?_
  · simp only [statResultSize]
    omega
  simp only [statResultSize]
  refine putUint_then (by omega) <| putUint_then (by omega) <| putUint_then (by omega) ?_
  exact (writes_field (spelled_uint 8 0) (length_leBytes 8 0) (by omega)).post fun _ _ hc =>
    hc.mono (Nat.zero_le _)

theorem at_writeWOpenReply (hT : T.needed) (hw : w.written = [])
    (status : WOpenStatus) (walked : Nat) {file : File} (hroot : S.Admits file.root) (mask : Nat) :
    At S T ⟨h, b, w⟩ (writeWOpenReply status walked file mask)
      (fun _ => Wrote h (replyFields .wopen) [] 0) (T.Failed S h) := by
  refine returns_then (returns_getAttr hroot mask) hT rfl fun a _ => ?_
  obtain ⟨valid, qid, stat⟩ := a
  refine ensureSize_then hw (fun _ => failed_unchanged hT (S.own _ (by decide)) rfl) ?_
  refine putUint_then ?_ <| putUint_then ?_ <| putQid_then ?_ (.ite (fun hlink => ?_) fun hlink => ?_)
  · simp only [getMessageSize]
    omega
  · simp only [getMessageSize]
    omega
  · simp only [getMessageSize, qidSize]
    omega
  · rw [if_pos hlink]
    have hempty (e : Int) (_ : S.errors e) : Writes S T h [.int 1, .int 2, .int qidSize]
        (getMessageSize .wopen + pathMax - headerSize - 1 - 2 - qidSize) (SpanWriter.uint 2 0)
        (fun _ => Wrote h [.int 1, .int 2, .int qidSize, .string] [] 136) (T.Failed S h) :=
      (writes_field (f := .string) ⟨[], by decide, rfl⟩ (length_leBytes 2 0) (by decide)).post
        fun _ _ hc => hc.mono (by decide)
    exact (writes_link hroot (by decide) hT hempty).bind fun _ => writes_attributes (by decide)
  · rw [if_neg hlink]
    refine (writes_field (f := .string) ⟨[], by decide, rfl⟩ (length_leBytes 2 0) (by decide)).bind
      fun _ => writes_attributes (by decide)

/-! ## The steps -/

section Steps

variable (hT : T.needed)
include hT

theorem at_throw {α : Type} {e : Int} {V : α → Context → Prop} (he : S.errors e)
    (hc : T.view c.handler = T.view h) : At S T c (Action.throw e) V (T.Failed S h) := by
  refine Action.spec_throw ?_
  rintro _ rfl
  exact failed_unchanged hT he hc

theorem at_walkParents (hroot : S.Admits root) (n walked : Nat) {file : File} (hfile : file.root = root)
    (hread : T.enough → neededNames file n b) :
    At S T ⟨h, b, w⟩ (walkParents n walked file)
      (fun r c => r.2.root = root ∧ ∃ b', c = ⟨h, b', w⟩ ∧ (r.1.isOk → T.enough → holds [.name] b'))
      (T.Failed S h) := by
  induction n generalizing walked file b with
  | zero =>
    refine Action.spec_pure ?_
    rintro _ rfl
    refine ⟨hfile, b, rfl, fun _ henough => ?_⟩
    simpa [neededNames] using hread henough
  | succ n ih =>
    have hsucc : (if file.qid.isDirectory then n + 1 + 1 else 1) =
        (if file.qid.isDirectory then n + 1 else 0) + 1 := by
      split <;> rfl
    rw [neededNames, hsucc] at hread
    have hname : T.Reads (.name :: List.replicate (if file.qid.isDirectory then n + 1 else 0) .name) b :=
      ⟨fun _ => hT, hread⟩
    refine name_then hname fun _ hrest => ?_
    refine onFile_then hT rfl (spec_walk (hfile ▸ hroot) _) fun r file' hr => ?_
    have hfile' : file'.root = root := hr.1.2.trans hfile
    cases r with
    | ok qid =>
      have hdir : file.qid.isDirectory := hr.2 rfl
      rw [if_pos hdir] at hrest
      exact ih (walked + 1) hfile' fun henough => neededNames_of_all (hrest.2 henough)
    | error e =>
      refine .ite (fun _ => Action.spec_pure fun _ hc => ⟨hfile', _, hc, nofun⟩) fun _ => ?_
      refine .ite (fun _ => Action.spec_pure fun _ hc => ⟨hfile', _, hc, nofun⟩) fun _ => ?_
      exact at_throw hT (hr.1.1 e rfl) rfl

theorem at_createItem (hroot : S.Admits root) (name : Bytes) (flags mode : Nat) (needOpen : Bool)
    {file : File} (hfile : file.root = root) (hc : T.view c.handler = T.view h) :
    At S T c (createItem name flags mode needOpen file)
      (fun r c' => (Sound S r.1 ∧ r.2.2.root = root) ∧ c' = c) (T.Failed S h) := by
  refine .ite (fun _ => ?_) fun _ => ?_
  · exact returns_then (returns_mkDir (hfile ▸ hroot) name mode) hT hc fun r hr =>
      Action.spec_pure fun _ hc' => ⟨⟨hr, hfile⟩, hc'⟩
  · refine onFile_then hT hc ((spec_create (hfile ▸ hroot) _ _ _).mono (fun _ h => h) (fun _ _ h => h)
      (fun _ _ h => h.2) fun _ _ h => h) fun r file' hr => ?_
    exact Action.spec_pure fun _ hc' => ⟨⟨hr.1.1, hr.1.2.trans hfile⟩, hc'⟩

theorem at_walkItem (hroot : S.Admits root) (name : Bytes) (flags : Nat) {file : File}
    (hfile : file.root = root) (hc : T.view c.handler = T.view h) :
    At S T c (walkItem name flags file)
      (fun r c' => ((∀ r', r.1 = some r' → Sound S r') ∧ r.2.root = root) ∧ c' = c) (T.Failed S h) := by
  refine .ite (fun _ => Action.spec_pure fun _ hc' => ⟨⟨nofun, hfile⟩, hc'⟩) fun _ => ?_
  refine onFile_then hT hc (spec_walk (hfile ▸ hroot) name) fun r file' hr => Action.spec_pure fun _ hc' => ?_
  refine ⟨⟨?_, hr.1.2.trans hfile⟩, hc'⟩
  rintro _ ⟨⟩
  exact hr.1.1

/-- What follows in `findItem` where there is no item. -/
def findCreated (name : Bytes) (flags mode nameCount retries : Nat) (needOpen : Bool) (entryQid : Qid)
    (file : File) : Op Context (WOpenResult WOpenItem × File) := do
  if anySet flags OpenFlags.create then
    let (r, needOpen, file) ← createItem name flags mode needOpen file
    match r with
    | .ok qid => return (.ok ⟨false, needOpen, qid⟩, file)
    | .error e =>
      if e = eexist ∧ ¬ anySet flags OpenFlags.exclusive then
        findItem name flags mode nameCount retries true entryQid file
      else Action.throw e
  else return (.ok ⟨false, needOpen, entryQid⟩, file)

theorem at_findItem (hroot : S.Admits root) (name : Bytes) (flags mode nameCount retries : Nat)
    (needOpen : Bool) (entryQid : Qid) {file : File} (hfile : file.root = root)
    (hc : T.view c.handler = T.view h) :
    At S T c (findItem name flags mode nameCount retries needOpen entryQid file)
      (fun r c' => r.2.root = root ∧ c' = c) (T.Failed S h) := by
  induction retries generalizing needOpen file with
  | zero => exact at_throw hT (S.own _ (by decide)) hc
  | succ retries ih =>
    rw [findItem]
    have hcreate {file : File} (hfile : file.root = root) :
        At S T c (findCreated name flags mode nameCount retries needOpen entryQid file)
          (fun r c' => r.2.root = root ∧ c' = c) (T.Failed S h) := by
      refine .ite (fun _ => ?_) fun _ => Action.spec_pure fun _ hc' => ⟨hfile, hc'⟩
      refine (at_createItem hT hroot name flags mode needOpen hfile hc).bind ?_
      rintro ⟨r, needOpen', file'⟩ _ ⟨⟨hr, hfile'⟩, rfl⟩
      cases r with
      | ok qid => exact Action.spec_pure fun _ hc' => ⟨hfile', hc'⟩
      | error e => exact .ite (fun _ => ih true hfile') fun _ => at_throw hT (hr e rfl) hc
    refine (at_walkItem hT hroot name flags hfile hc).bind ?_
    rintro ⟨r, file'⟩ _ ⟨⟨hr, hfile'⟩, rfl⟩
    cases r with
    | none => exact hcreate hfile'
    | some r =>
      cases r with
      | ok qid => exact Action.spec_pure fun _ hc' => ⟨hfile', hc'⟩
      | error e =>
        refine .ite (fun _ => .ite (fun _ => Action.spec_pure fun _ hc' => ⟨hfile', hc'⟩)
          fun _ => hcreate hfile') fun _ => ?_
        exact .ite (fun _ => Action.spec_pure fun _ hc' => ⟨hfile', hc'⟩)
          fun _ => at_throw hT (hr _ rfl e rfl) hc

theorem at_locateItem (hroot : S.Admits root) (flags mode nameCount : Nat) {file : File}
    (hfile : file.root = root)
    (hread : T.enough → 0 < nameCount → neededNames file (nameCount - 1) b) :
    At S T ⟨h, b, w⟩ (locateItem flags mode nameCount file)
      (fun r c => r.2.root = root ∧ ∃ b', c = ⟨h, b', w⟩) (T.Failed S h) := by
  refine .ite (fun hpos => ?_) fun _ => Action.spec_pure fun _ hc => ⟨hfile, b, hc⟩
  refine (at_walkParents hT hroot (nameCount - 1) 0 hfile fun he => hread he hpos).bind ?_
  rintro ⟨r, file'⟩ _ ⟨hfile', b', rfl, hlast⟩
  cases r with
  | error reply => exact Action.spec_pure fun _ hc => ⟨hfile', b', hc⟩
  | ok u =>
    cases u
    have hname : T.Reads [.name] b' := ⟨fun _ => hT, hlast rfl⟩
    refine name_then hname fun _ _ => ?_
    exact (at_findItem hT hroot _ flags mode nameCount createRetryCount true file.qid hfile' rfl).post
      fun _ _ hc => ⟨hc.1, _, hc.2⟩

theorem at_openItem (hroot : S.Admits root) (flags : Nat) (item : WOpenItem) {file : File}
    (hfile : file.root = root) (hc : T.view c.handler = T.view h) :
    At S T c (openItem flags item file) (fun g c' => g.root = root ∧ c' = c) (T.Failed S h) := by
  refine .ite (fun _ => ?_) fun _ => Action.spec_pure fun _ hc' => ⟨hfile, hc'⟩
  refine onFile_then hT hc ((spec_open (hfile ▸ hroot) _).mono (fun _ h => h) (fun _ _ h => h)
    (fun _ _ h => h.2) fun _ _ h => h) fun _ _ hr => ?_
  exact Action.spec_pure fun _ hc' => ⟨hr.2.trans hfile, hc'⟩

theorem keeps_finishItem (hroot : S.Admits root) (hsource : T.source root) (hw : w.written = [])
    (newFid flags wflags mask nameCount : Nat) (item : WOpenItem) {file : File}
    (hfile : file.root = root) :
    Keeps S T h b w .wopen (finishItem newFid flags wflags mask nameCount item file) := by
  refine .ite (fun _ => at_throw hT (S.own _ (by decide)) rfl) fun _ => ?_
  refine .ite (fun _ => at_throw hT (S.own _ (by decide)) rfl) fun _ => ?_
  have hrest : Keeps S T h b w .wopen (do
      if item.qid.isSymlink ∧ ¬ anySet wflags WOpenFlags.openSymlink then
        writeWOpenReply .stopped nameCount file mask
      else
        let file ← openItem flags item file
        writeWOpenReply (if item.existed then .opened else .created) nameCount file mask
        emplaceFid newFid (.file file)) := by
    refine .ite (fun _ => ?_) fun _ => (at_openItem hT hroot flags item hfile rfl).bind ?_
    · exact (at_writeWOpenReply hT hw .stopped nameCount (hfile ▸ hroot) mask).post
        fun _ _ hc => hc.done_self hT Terms.heirs_refl rfl
    · rintro file' _ ⟨hfile', rfl⟩
      refine (at_writeWOpenReply hT hw _ nameCount (hfile' ▸ hroot) mask).bind fun _ c hc => ?_
      obtain ⟨h', b', w'⟩ := c
      obtain rfl : h = h' := hc.1.symm
      refine (at_emplace hT rfl).post ?_
      rintro _ _ ⟨hnew, rfl⟩
      have hheirs : T.Heirs h (h.setFid newFid (some (.file file'))) :=
        Terms.heirs_emplace hnew (hfile'.symm ▸ hsource : T.source file'.root)
      exact hc.done hT hheirs rfl rfl
  exact .ite (fun _ => returns_then (returns_access (hfile ▸ hroot) _) hT rfl fun _ _ => hrest)
    fun _ => hrest

end Steps

theorem keeps_wopen (hroot : OfRoot h b S.Admits) (hsource : OfRoot h b T.source)
    (hw : w.written = []) (hgate : h.use9P2000W = false → T.needed)
    (hneeded : h.use9P2000W → holds (requestFields .wopen) b → T.needed)
    (henough : h.use9P2000W → T.enough → wopenHolds h b) :
    Keeps S T h b w .wopen handleWOpen := by
  refine .get_then (.ite (fun hW => ?_) fun hW => ?_)
  · exact at_throw (hgate (Bool.eq_false_iff.mpr hW)) (S.own _ (by decide)) rfl
  have hT : T.Reads (requestFields .wopen) b :=
    ⟨hneeded (not_not.mp hW), fun he => (henough (not_not.mp hW) he).1⟩
  have hnames := fun he => (henough (not_not.mp hW) he).2
  refine uint_then hT fun hT => uint_then hT fun hT => uint_then hT fun hT => uint_then hT fun hT => ?_
  refine uint_then hT fun hT => uint_then hT fun hT => uint_then hT fun hT => uint_then hT fun hT => ?_
  simp only [List.drop_drop, Nat.reduceAdd] at hT ⊢
  refine file_then hT.needed (S.own _ (by decide)) fun f hfid => ?_
  have hadmits : S.Admits f.root := hroot _ hfid
  have hclone : f.clone.root = f.root := rfl
  have hread (he : T.enough) (hpos : 0 < leAt 0 2 (b.drop 32)) :
      neededNames f.clone (leAt 0 2 (b.drop 32) - 1) (b.drop 34) := hnames he f hfid hpos
  refine (at_locateItem hT.needed hadmits _ _ _ hclone hread).bind ?_
  rintro ⟨r, file⟩ _ ⟨hfile, b', rfl⟩
  cases r with
  | error reply =>
    obtain ⟨status, walked⟩ := reply
    exact (at_writeWOpenReply hT.needed hw status walked (hfile ▸ hadmits) _).post fun _ _ hc =>
      hc.done_self hT.needed Terms.heirs_refl rfl
  | ok item =>
    exact keeps_finishItem hT.needed hadmits (hsource _ hfid) hw _ _ _ _ _ item hfile

end WslFreeBSD.Plan9
