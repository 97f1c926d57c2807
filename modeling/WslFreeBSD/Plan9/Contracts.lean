import WslFreeBSD.Plan9.Requests

/-!
# The contracts of the handlers

Each handler answers, fails or halts as the `Terms` of its request say. Most of them change nothing but
the response. Those that change a fid, or the handler, before they make room for the response ask that
the change is not there or that there is room, if a failure is not to be noticed.
-/

namespace WslFreeBSD.Plan9

open Lib

variable {S : Setting} {T : Terms} {h : Handler} {b : Bytes} {w : MessageResponse}

/-- The root of the fid that a body starts with. -/
def OfRoot (h : Handler) (b : Bytes) (P : Root → Prop) : Prop :=
  ∀ item, h.fids (leAt 0 4 b) = some item → P item.root

/-- A handler keeps to the terms of its request. -/
abbrev Keeps (S : Setting) (T : Terms) (h : Handler) (b : Bytes) (w : MessageResponse)
    (t : MessageType) (m : Op Context Unit) : Prop :=
  At S T ⟨h, b, w⟩ m (T.Done h t) (T.Failed S h)

theorem writes_link {file : File} (hroot : S.Admits file.root) {fields : List Field} {room : Nat}
    {onError : Int → Op Context Unit} (hroom : 2 + pathMax ≤ room) (hT : T.needed)
    (herror : ∀ e, S.errors e → Writes S T h fields room (onError e)
      (fun _ => Wrote h (fields ++ [.string]) [] (room - (2 + pathMax))) (T.Failed S h)) :
    Writes S T h fields room (writeLink file onError)
      (fun _ => Wrote h (fields ++ [.string]) [] (room - (2 + pathMax))) (T.Failed S h) := by
  refine peek_then (by omega) (Action.spec_of_state fun c hc => .get_then ?_)
  refine returns_then (returns_readLink hroot _) hT (congrArg T.view hc.1) fun r hr => ?_
  cases r with
  | error e => exact (herror e (hr e rfl)).pre fun _ hc' => hc' ▸ hc
  | ok target =>
    have hmax : target.val.length ≤ pathMax := target.property.2
    have hwrites : Writes S T h fields room
        (SpanWriter.uint 2 target.val.length >>= fun _ => SpanWriter.write target.val)
        (fun _ => Wrote h (fields ++ [.string]) [] (room - (2 + target.val.length))) (T.Failed S h) :=
      writes_counted ⟨target.val, hmax.trans_lt (by decide), rfl⟩ (by omega)
    exact hwrites.mono (fun _ hc' => hc' ▸ hc) (fun _ _ hc' => hc'.mono (by omega)) (fun _ _ h => h)
      fun _ _ h => h

theorem returns_fidRead {item : Fid} (hroot : S.Admits item.root)
    (hasync : ∀ f fd, item = .file f → f.state = .file fd → S.async) (offset size : Nat) :
    Returns S .server (item.read offset size : Op Context Bytes) fun data => data.length ≤ size ∨
      ∃ x, item = .xattr x ∧ x.access = .read ∧ offset = 0 ∧ size = 0 := by
  cases item with
  | file f =>
    have hread : Throws S .server (f.read offset size) fun data => data.length ≤ size :=
      throws_read (by exact fun fd hfd => hasync f fd rfl hfd) offset size
    exact hread.returns.mono fun _ h => .inl h
  | xattr x => exact (returns_xattrRead hroot offset size).mono fun _ h => h.imp_right fun h => ⟨x, rfl, h⟩

theorem spec_fidWrite {item : Fid} (hasync : ∀ f fd, item = .file f → f.state = .file fd → S.async)
    (offset : Nat) (data : Bytes) :
    Action.Spec (S.interface .server) (fun i => i = item) (Fid.write offset data)
      (fun _ i => i.root = item.root) (fun e i => S.errors e ∧ i = item) (Terminates S .server) := by
  refine .get_then ?_
  cases item with
  | file f =>
    have hwrite : Throws S .server (f.write offset data) fun _ => True :=
      throws_write (by exact fun fd hfd => hasync f fd rfl hfd) offset data
    exact (hwrite.returns _).mono (fun _ h => h) (fun _ _ h => h.1 ▸ rfl) (fun _ _ h => ⟨h.2, h.1⟩)
      fun _ _ h => h
  | xattr x =>
    refine .zoom ?_
    rintro _ rfl
    refine .get_then (.ite (fun _ => Action.spec_throw ?_) fun _ => ?_)
    · rintro _ rfl
      exact ⟨S.own _ (by decide), rfl⟩
    · refine .ite (fun _ => Action.spec_pure fun _ h => h ▸ rfl) fun _ => ?_
      exact .modify_then (Action.spec_pure fun _ h => h ▸ rfl)

theorem orFail_ok_then {α β : Type} {c : Context} {a : α} {k : α → Op Context β}
    {V : β → Context → Prop} {E : Int → Context → Prop} (hk : At S T c (k a) V E) :
    At S T c ((orFail (.ok a)).embed >>= k) V E := hk

theorem orFail_error_then {α β : Type} {c : Context} {e : Int} {k : α → Op Context β}
    {V : β → Context → Prop} {E : Int → Context → Prop} (he : E e c) :
    At S T c ((orFail (.error e)).embed >>= k) V E := by
  rintro _ rfl
  exact Action.meets_pure he

section Handlers

variable (hw : w.written = [])
include hw

/-! ## Handlers that change only the response -/

theorem keeps_statFs (hroot : OfRoot h b S.Admits)
    (hdirect : T.needed → ∀ f, h.fids (leAt 0 4 b) = some (.file f) → S.opens .server)
    (hT : T.Reads (requestFields .statfs) b) : Keeps S T h b w .statfs handleStatFs := by
  refine uint_then hT fun hT => file_then hT.needed (S.own _ (by decide)) fun f hfid => ?_
  have hopens : S.opens .server := hdirect hT.needed f hfid
  refine returns_then (returns_statFs (hroot _ hfid) hopens) hT.needed rfl fun statfs _ => ?_
  refine ensureSize_then hw (fun _ => failed_unchanged hT.needed (S.own _ (by decide)) rfl) ?_
  refine putUint_then (by decide) <| putUint_then (by decide) <| putUint_then (by decide) ?_
  refine putUint_then (by decide) <| putUint_then (by decide) <| putUint_then (by decide) ?_
  refine putUint_then (by decide) <| putUint_then (by decide) ?_
  exact putUint_done hT.needed Terms.heirs_refl (by decide) rfl

theorem keeps_getAttr (hroot : OfRoot h b S.Admits) (hT : T.Reads (requestFields .getattr) b) :
    Keeps S T h b w .getattr handleGetAttr := by
  refine uint_then hT fun hT => uint_then hT fun hT => ?_
  refine file_then hT.needed (S.own _ (by decide)) fun f hfid => ?_
  refine returns_then (returns_getAttr (hroot _ hfid) _) hT.needed rfl fun a _ => ?_
  refine ensureSize_then hw (fun _ => failed_unchanged hT.needed (S.own _ (by decide)) rfl) ?_
  refine putUint_then (by decide) <| putQid_then (by decide) ?_
  refine write_then (f := .int statResultSize) (length_statResultBytes _) (length_statResultBytes _)
    (by decide) ?_
  refine putUint_then (by decide) <| putUint_then (by decide) <| putUint_then (by decide) ?_
  exact putUint_done hT.needed Terms.heirs_refl (by decide) rfl

theorem keeps_symLink (hroot : OfRoot h b S.Admits) (hT : T.Reads (requestFields .symlink) b) :
    Keeps S T h b w .symlink handleSymLink := by
  refine uint_then hT fun hT => name_then hT fun _ hT => string_then hT fun hT => ?_
  refine uint_then hT fun hT => file_then hT.needed (S.own _ (by decide)) fun f hfid => ?_
  refine returns_then (returns_symLink (hroot _ hfid) _ _) hT.needed rfl fun qid _ => ?_
  refine ensureSize_then hw (fun _ => failed_unchanged hT.needed (S.own _ (by decide)) rfl) ?_
  exact putQid_done hT.needed Terms.heirs_refl (by decide) rfl

theorem keeps_mkNod (hroot : OfRoot h b S.Admits) (hT : T.Reads (requestFields .mknod) b) :
    Keeps S T h b w .mknod handleMkNod := by
  refine uint_then hT fun hT => name_then hT fun _ hT => uint_then hT fun hT => ?_
  refine uint_then hT fun hT => uint_then hT fun hT => uint_then hT fun hT => ?_
  refine file_then hT.needed (S.own _ (by decide)) fun f hfid => ?_
  refine returns_then (returns_mkNod (hroot _ hfid) _ _ _ _) hT.needed rfl fun qid _ => ?_
  refine ensureSize_then hw (fun _ => failed_unchanged hT.needed (S.own _ (by decide)) rfl) ?_
  exact putQid_done hT.needed Terms.heirs_refl (by decide) rfl

theorem keeps_mkDir (hroot : OfRoot h b S.Admits) (hT : T.Reads (requestFields .mkdir) b) :
    Keeps S T h b w .mkdir handleMkDir := by
  refine uint_then hT fun hT => name_then hT fun _ hT => uint_then hT fun hT => ?_
  refine uint_then hT fun hT => file_then hT.needed (S.own _ (by decide)) fun f hfid => ?_
  refine returns_then (returns_mkDir (hroot _ hfid) _ _) hT.needed rfl fun r hr => ?_
  refine returns_then (throws_orFail hr).returns hT.needed rfl fun qid _ => ?_
  refine ensureSize_then hw (fun _ => failed_unchanged hT.needed (S.own _ (by decide)) rfl) ?_
  exact putQid_done hT.needed Terms.heirs_refl (by decide) rfl

theorem keeps_fsync (hT : T.Reads (requestFields .fsync) b) :
    Keeps S T h b w .fsync handleFsync := by
  refine uint_then hT fun hT => file_then hT.needed (S.own _ (by decide)) fun f hfid => ?_
  exact returns_done (throws_fsync f).returns hT.needed hw rfl

theorem keeps_link (hroot : OfRoot h b S.Admits) (hT : T.Reads (requestFields .link) b) :
    Keeps S T h b w .link handleLink := by
  refine uint_then hT fun hT => uint_then hT fun hT => name_then hT fun _ hT => ?_
  refine pair_then hT.needed fun f g hfid => ?_
  exact returns_done (returns_link (hroot _ hfid) _ g) hT.needed hw rfl

theorem keeps_unlinkAt (hroot : OfRoot h b S.Admits) (hT : T.Reads (requestFields .unlinkat) b) :
    Keeps S T h b w .unlinkat handleUnlinkAt := by
  refine uint_then hT fun hT => name_then hT fun _ hT => uint_then hT fun hT => ?_
  refine file_then hT.needed (S.own _ (by decide)) fun f hfid => ?_
  exact returns_done (returns_unlinkAt (hroot _ hfid) _ _) hT.needed hw rfl

theorem keeps_remove (hroot : OfRoot h b S.Admits) (hT : T.Reads (requestFields .remove) b) :
    Keeps S T h b w .remove handleRemove := by
  refine uint_then hT fun hT => file_then hT.needed (S.own _ (by decide)) fun f hfid => ?_
  exact returns_done (returns_remove (hroot _ hfid)) hT.needed hw rfl

theorem keeps_renameAt (hroot : OfRoot h b S.Admits) (hT : T.Reads (requestFields .renameat) b) :
    Keeps S T h b w .renameat handleRenameAt := by
  refine uint_then hT fun hT => name_then hT fun _ hT => uint_then hT fun hT => ?_
  refine name_then hT fun _ hT => pair_then hT.needed fun f g hfid => ?_
  exact returns_done (returns_renameAt (hroot _ hfid) _ g _) hT.needed hw rfl

theorem keeps_setAttr (hroot : OfRoot h b S.Admits) (hT : T.Reads (requestFields .setattr) b) :
    Keeps S T h b w .setattr handleSetAttr := by
  refine uint_then hT fun hT => uint_then hT fun hT => uint_then hT fun hT => ?_
  refine uint_then hT fun hT => uint_then hT fun hT => uint_then hT fun hT => ?_
  refine uint_then hT fun hT => uint_then hT fun hT => uint_then hT fun hT => ?_
  refine uint_then hT fun hT => file_then hT.needed (S.own _ (by decide)) fun f hfid => ?_
  exact returns_done (returns_setAttr (hroot _ hfid) _ _) hT.needed hw rfl

theorem keeps_lock (hT : T.Reads (requestFields .lock) b) :
    Keeps S T h b w .lock handleLock := by
  refine uint_then hT fun hT => uint_then hT fun hT => uint_then hT fun hT => ?_
  refine uint_then hT fun hT => uint_then hT fun hT => uint_then hT fun hT => ?_
  refine string_then hT fun hT => file_then hT.needed (S.own _ (by decide)) fun f hfid => ?_
  refine returns_then (throws_lock f).returns hT.needed rfl fun status _ => ?_
  refine ensureSize_then hw (fun _ => failed_unchanged hT.needed (S.own _ (by decide)) rfl) ?_
  exact putUint_done hT.needed Terms.heirs_refl (by decide) rfl

theorem keeps_access (hroot : OfRoot h b S.Admits) (hgate : h.use9P2000W = false → T.needed)
    (hT : h.use9P2000W → T.Reads (requestFields .access) b) :
    Keeps S T h b w .access handleAccess := by
  refine .get_then (.ite (fun hW => Action.spec_throw ?_) fun hW => ?_)
  · rintro _ rfl
    exact failed_unchanged (hgate (Bool.eq_false_iff.mpr hW)) (S.own _ (by decide)) rfl
  · refine uint_then (hT (not_not.mp hW)) fun hT => uint_then hT fun hT => ?_
    refine file_then hT.needed (S.own _ (by decide)) fun f hfid => ?_
    exact returns_done (returns_access (hroot _ hfid) _) hT.needed hw rfl

theorem keeps_readLink (hroot : OfRoot h b S.Admits) (hT : T.Reads (requestFields .readlink) b) :
    Keeps S T h b w .readlink handleReadLink := by
  refine uint_then hT fun hT => file_then hT.needed (S.own _ (by decide)) fun f hfid => ?_
  refine ensureSize_then hw (fun _ => failed_unchanged hT.needed (S.own _ (by decide)) rfl) ?_
  have hlink : Writes S T h [] (getMessageSize .readlink + pathMax - headerSize)
      (writeLink f Action.throw) _ (T.Failed S h) :=
    writes_link (hroot _ hfid) (by decide) hT.needed fun e he =>
      Action.spec_throw fun c hc => failed_unchanged hT.needed he (congrArg T.view hc.1)
  exact hlink.post fun _ _ hc => hc.done_self hT.needed Terms.heirs_refl rfl

theorem keeps_getLock (hT : T.Reads (requestFields .getlock) b)
    (hover : T.needed → ∀ f, h.fids (leAt 0 4 b) = some (.file f) → f.isOpen →
      min w.size h.negotiatedSize < 30 + (stringAt (b.drop 25)).length → T.overrun) :
    Keeps S T h b w .getlock handleGetLock := by
  refine uint_then hT fun hT => uint_then hT fun hT => uint_then hT fun hT => ?_
  refine uint_then hT fun hT => uint_then hT fun hT => string_then hT fun hT => ?_
  refine file_then hT.needed (S.own _ (by decide)) fun f hfid => ?_
  refine returns_then (throws_getLock f _ _ _ _).returns hT.needed rfl fun r hr => ?_
  obtain ⟨hopen, rfl⟩ := hr
  simp only [List.drop_drop, Nat.reduceAdd] at hT ⊢
  by_cases hfits : 30 + (stringAt (b.drop 25)).length ≤ min w.size h.negotiatedSize
  · obtain ⟨hsize, hnegotiated⟩ := Nat.le_min.mp hfits
    have hroom : getMessageSize .getlock + 0 ≤ headerSize + (23 + (stringAt (b.drop 25)).length) := by
      simp only [getMessageSize]
      omega
    refine ensureRoom_then hw ?_ ?_ hroom ?_
    · simp only [headerSize]
      omega
    · simp only [headerSize]
      omega
    refine putUint_then (by omega) <| putUint_then (by omega) ?_
    refine putUint_then (by omega) <| putUint_then (by omega) ?_
    refine (writes_string (length_stringAt_lt _) (by omega)).post fun _ _ hc => ?_
    exact hc.done_self hT.needed Terms.heirs_refl rfl
  · have hT' : T.overrun := hover hT.needed f hfid hopen (Nat.lt_of_not_le hfits)
    refine ensureSize_then hw (fun _ => failed_unchanged hT.needed (S.own _ (by decide)) rfl) ?_
    refine putUint_then (by decide) <| putUint_then (by decide) ?_
    refine putUint_then (by decide) <| putUint_then (by decide) ?_
    exact (string_overrun hT.needed hT').pre fun _ hc => hc.heirs

theorem keeps_read (hroot : OfRoot h b S.Admits)
    (hasync : T.needed → Fits h w (getMessageSize .read + leAt 0 4 (b.drop 12)) →
      ∀ f fd, h.fids (leAt 0 4 b) = some (.file f) → f.state = .file fd → S.async)
    (hT : T.Reads (requestFields .read) b)
    (hover : T.needed → ∀ x, h.fids (leAt 0 4 b) = some (.xattr x) → x.access = .read →
      leAt 0 8 (b.drop 4) = 0 → leAt 0 4 (b.drop 12) = 0 → T.overrun) :
    Keeps S T h b w .read handleRead := by
  refine uint_then hT fun hT => uint_then hT fun hT => uint_then hT fun hT => ?_
  refine lookup_then hT.needed fun item hfid => ?_
  simp only [List.drop_drop, Nat.reduceAdd] at hT ⊢
  have hcount : leAt 0 4 (b.drop 12) < 2 ^ 32 := leAt_lt 0 4 _
  have hroom : 4 + leAt 0 4 (b.drop 12) ≤
      getMessageSize .read + leAt 0 4 (b.drop 12) - headerSize := by
    simp only [getMessageSize]
    omega
  refine ensureFits_then hw (fun _ => failed_unchanged hT.needed (S.own _ (by decide)) rfl) fun hfits => ?_
  have hread := returns_fidRead (hroot item hfid)
    (fun f fd hf => hasync hT.needed hfits f fd (hf ▸ hfid)) (leAt 0 8 (b.drop 4)) (leAt 0 4 (b.drop 12))
  refine peek_then hroom (writes_returns_then hread hT.needed fun data hdata => ?_)
  rcases hdata with hle | ⟨x, rfl, haccess, hoffset, hzero⟩
  · refine (writes_counted (f := .data) ⟨data, hle.trans_lt hcount, rfl⟩ (by omega)).post fun _ _ hc => ?_
    exact hc.done_self hT.needed Terms.heirs_refl rfl
  · exact (counted_overrun hT.needed (hover hT.needed x hfid haccess hoffset hzero)).pre fun _ hc => hc.heirs

theorem keeps_readDir (includeAttributes : Bool)
    (hsee : ∀ f g : File, g.view = f.view → T.see (.file g) = T.see (.file f))
    (hdirect : T.needed → ∀ f, h.fids (leAt 0 4 b) = some (.file f) → f.isOpen → includeAttributes →
      h.use9P2000W → S.opens .server)
    (hgate : includeAttributes → h.use9P2000W = false → T.needed)
    (hT : (includeAttributes → h.use9P2000W) → T.Reads (requestFields .readdir) b) :
    Keeps S T h b w .readdir (handleReadDir includeAttributes) := by
  refine .get_then (.ite (fun hW => Action.spec_throw ?_) fun hW => ?_)
  · rintro _ rfl
    exact failed_unchanged (hgate hW.1 (Bool.eq_false_iff.mpr hW.2)) (S.own _ (by decide)) rfl
  refine uint_then (hT fun hattr => by_contra fun hno => hW ⟨hattr, hno⟩) fun hT => ?_
  refine uint_then hT fun hT => uint_then hT fun hT => lookup_then hT.needed fun item hfid => ?_
  simp only [List.drop_drop, Nat.reduceAdd] at hT ⊢
  have hcount : leAt 0 4 (b.drop 12) < 2 ^ 32 := leAt_lt 0 4 _
  have hroom : 4 + leAt 0 4 (b.drop 12) ≤
      getMessageSize .readdir + leAt 0 4 (b.drop 12) - headerSize := by
    simp only [getMessageSize]
    omega
  refine ensureSize_then hw (fun _ => failed_unchanged hT.needed (S.own _ (by decide)) rfl) ?_
  refine peek_then hroom (Action.spec_of_state fun c hc => ?_)
  have hneeded : T.needed := hT.needed
  obtain ⟨h', b', w'⟩ := c
  obtain ⟨hh, hwrote⟩ := hc
  obtain rfl : h = h' := hh.symm
  have hopens (f : File) (hf : item = .file f) (hopen : f.isOpen) (hattr : includeAttributes) :
      S.opens .server :=
    hdirect hneeded f (hf ▸ hfid) hopen hattr (by_contra fun hno => hW ⟨hattr, hno⟩)
  refine onFid_then (spec_fidOnFile item fun f hf => spec_readDir _ _ (hopens f hf)) ?_ ?_
  · rintro e _ (⟨f, g, rfl, ⟨hview, he⟩, rfl⟩ | ⟨he, rfl⟩)
    · exact failed_setFid hneeded he hfid (hsee f g hview)
    · exact failed_setFid hneeded he hfid rfl
  · rintro data _ ⟨f, g, rfl, ⟨hlen, hview⟩, rfl⟩
    have hheirs : T.Heirs h (h.setFid (leAt 0 4 b) (some (.file g))) :=
      Terms.heirs_of_view (Terms.view_setFid hfid (hsee f g hview))
    have hwrites : Writes S T (h.setFid (leAt 0 4 b) (some (.file g))) []
        (getMessageSize .readdir + leAt 0 4 (b.drop 12) - headerSize)
        (SpanWriter.uint 4 data.length >>= fun _ => SpanWriter.write data) (T.Done h .readdir)
        (T.Failed S h) :=
      (writes_counted (f := .data) ⟨data, hlen.trans_lt hcount, rfl⟩
        ((Nat.add_le_add_left hlen 4).trans hroom)).post fun _ _ hc => hc.done_self hneeded hheirs rfl
    refine hwrites.pre ?_
    rintro _ rfl
    exact ⟨rfl, hwrote⟩

theorem keeps_clunk (hsteady : ¬ T.steady)
    (hdirect : T.needed → ∀ x, h.fids (leAt 0 4 b) = some (.xattr x) → x.access = .write →
      S.opens .server)
    (hT : T.Reads (requestFields .clunk) b) : Keeps S T h b w .clunk handleClunk := by
  refine uint_then hT fun hT => lookup_then hT.needed fun item hfid => .modify_then ?_
  have hclunk : Throws S .server item.clunk fun _ => True :=
    throws_clunk fun x hx => hdirect hT.needed x (hx ▸ hfid)
  refine (hclunk.returns _).mono (fun _ h => h) ?_ ?_ ?_
  · rintro _ _ ⟨rfl, -⟩
    exact done_empty hT.needed Terms.heirs_remove hw rfl
  · rintro e _ ⟨rfl, he⟩
    exact ⟨hT.needed, he, Terms.heirs_remove, fun h => absurd h hsteady⟩
  · rintro x _ ⟨rfl, hR⟩
    exact hR

/-! ## Handlers that change what a fid denotes -/

theorem keeps_rename (hroot : OfRoot h b S.Admits) (hT : T.Reads (requestFields .rename) b) :
    Keeps S T h b w .rename handleRename := by
  refine uint_then hT fun hT => uint_then hT fun hT => name_then hT fun _ hT => ?_
  refine pair_then hT.needed fun f g hfid => .zoom ?_
  rintro _ rfl
  refine (spec_fidOnFile (.file f) fun f' hf => spec_rename (hroot (.file f') (hf ▸ hfid)) g _).mono
    (fun _ h => h) ?_ ?_ ?_
  · rintro _ _ ⟨f', g', hf, hkept, rfl⟩
    obtain rfl : f = f' := Fid.file.inj hf
    exact done_empty hT.needed (Terms.heirs_replace hfid hkept.symm) hw rfl
  · rintro e _ (⟨f', g', hf, ⟨rfl, he⟩, rfl⟩ | ⟨he, rfl⟩)
    · obtain rfl : f = g' := Fid.file.inj hf
      exact failed_setFid hT.needed he hfid rfl
    · exact failed_setFid hT.needed he hfid rfl
  · rintro x _ ⟨rfl, hR⟩
    exact hR

theorem keeps_xattrCreate
    (hdirect : T.needed → ∀ f, h.fids (leAt 0 4 b) = some (.file f) → f.isOpen = false →
      S.opens .server)
    (hT : T.Reads (requestFields .xattrcreate) b) :
    Keeps S T h b w .xattrcreate handleXattrCreate := by
  refine uint_then hT fun hT => string_then hT fun hT => uint_then hT fun hT => ?_
  refine uint_then hT fun hT => file_then hT.needed (S.own _ (by decide)) fun f hfid => ?_
  have hopens : f.isOpen = false → S.opens .server := hdirect hT.needed f hfid
  refine returns_then (throws_xattrCreate hopens _ _ _).returns hT.needed rfl fun x hx => ?_
  refine Action.spec_modify ?_
  rintro _ rfl
  exact done_empty hT.needed (Terms.heirs_replace hfid hx.symm) hw rfl

theorem keeps_write (hsteady : T.steady → 11 ≤ w.size)
    (hasync : T.needed → ∀ f fd, h.fids (leAt 0 4 b) = some (.file f) → f.state = .file fd → S.async)
    (hT : T.Reads (requestFields .write) b) : Keeps S T h b w .write handleWrite := by
  refine uint_then hT fun hT => uint_then hT fun hT => data_then hT fun hT => ?_
  refine lookup_then hT.needed fun item hfid => ?_
  refine onFid_then (spec_fidWrite (fun f fd hf => hasync hT.needed f fd (hf ▸ hfid)) _ _) ?_ ?_
  · rintro e _ ⟨he, rfl⟩
    exact failed_setFid hT.needed he hfid rfl
  · intro n i hi
    have hheirs : T.Heirs h (h.setFid (leAt 0 4 b) (some i)) := Terms.heirs_replace hfid hi.symm
    refine ensureSize_then hw (fun hlt => ⟨hT.needed, S.own _ (by decide), hheirs, fun hs => ?_⟩)
      (putUint_done hT.needed hheirs (by decide) rfl)
    have hnegotiated : 64 ≤ h.negotiatedSize := h.size_ge
    have := hsteady hs
    change h.negotiatedSize < 11 ∨ w.size < 11 at hlt
    omega

theorem keeps_lopen (hroot : OfRoot h b S.Admits) (hT : T.Reads (requestFields .lopen) b)
    (hsteady : T.steady → ∀ f, h.fids (leAt 0 4 b) = some (.file f) → f.isOpen = false → 24 ≤ w.size) :
    Keeps S T h b w .lopen handleLOpen := by
  refine uint_then hT fun hT => uint_then hT fun hT => lookup_then hT.needed fun item hfid => ?_
  refine onFid_then (spec_fidOnFile item fun f hf => spec_open (hroot (.file f) (hf ▸ hfid)) _) ?_ ?_
  · rintro e _ (⟨f, g, rfl, ⟨rfl, he⟩, rfl⟩ | ⟨he, rfl⟩)
    · exact failed_setFid hT.needed he hfid rfl
    · exact failed_setFid hT.needed he hfid rfl
  · rintro qid _ ⟨f, g, rfl, ⟨hclosed, hkept⟩, rfl⟩
    have hheirs : T.Heirs h (h.setFid (leAt 0 4 b) (some (.file g))) :=
      Terms.heirs_replace hfid hkept.symm
    refine ensureSize_then hw (fun hlt => ⟨hT.needed, S.own _ (by decide), hheirs, fun hs => ?_⟩) ?_
    · have hnegotiated : 64 ≤ h.negotiatedSize := h.size_ge
      have := hsteady hs f hfid hclosed
      change h.negotiatedSize < 24 ∨ w.size < 24 at hlt
      omega
    · exact putQid_then (by decide) (putUint_done hT.needed hheirs (by decide) rfl)

theorem keeps_lcreate (hroot : OfRoot h b S.Admits) (hT : T.Reads (requestFields .lcreate) b)
    (hsteady : T.steady → isName (stringAt (b.drop 4)) →
      ∀ f, h.fids (leAt 0 4 b) = some (.file f) → f.isOpen = false → 24 ≤ w.size) :
    Keeps S T h b w .lcreate handleLCreate := by
  refine uint_then hT fun hT => name_then hT fun hname hT => uint_then hT fun hT => ?_
  refine uint_then hT fun hT => uint_then hT fun hT => lookup_then hT.needed fun item hfid => ?_
  refine onFid_then (spec_fidOnFile item fun f hf =>
    spec_create (hroot (.file f) (hf ▸ hfid)) _ _ _) ?_ ?_
  · rintro e _ (⟨f, g, rfl, ⟨rfl, he⟩, rfl⟩ | ⟨he, rfl⟩)
    · exact failed_setFid hT.needed he hfid rfl
    · exact failed_setFid hT.needed he hfid rfl
  · rintro r _ ⟨f, g, rfl, ⟨⟨hr, hkept⟩, hfailed, hopened⟩, rfl⟩
    have hheirs : T.Heirs h (h.setFid (leAt 0 4 b) (some (.file g))) :=
      Terms.heirs_replace hfid hkept.symm
    cases r with
    | error e =>
      refine orFail_error_then (failed_setFid hT.needed (hr e rfl) hfid ?_)
      rw [hfailed rfl]
    | ok qid =>
      refine orFail_ok_then (ensureSize_then hw
        (fun hlt => ⟨hT.needed, S.own _ (by decide), hheirs, fun hs => ?_⟩) ?_)
      · have hnegotiated : 64 ≤ h.negotiatedSize := h.size_ge
        have := hsteady hs hname f hfid (hopened rfl)
        change h.negotiatedSize < 24 ∨ w.size < 24 at hlt
        omega
      · exact putQid_then (by decide) (putUint_done hT.needed hheirs (by decide) rfl)

/-! ## Handlers that change the table of fids, or the handler -/

theorem keeps_xattrWalk (hroot : OfRoot h b S.Admits) (hsource : OfRoot h b T.source)
    (hdirect : T.needed → ∀ f, h.fids (leAt 0 4 b) = some (.file f) → S.opens .server)
    (hT : T.Reads (requestFields .xattrwalk) b)
    (hsteady : T.steady → ∀ f, h.fids (leAt 0 4 b) = some (.file f) →
      h.fids (leAt 0 4 (b.drop 4)) = none → 15 ≤ w.size) :
    Keeps S T h b w .xattrwalk handleXattrWalk := by
  refine uint_then hT fun hT => uint_then hT fun hT => string_then hT fun hT => ?_
  refine file_then hT.needed (S.own _ (by decide)) fun f hfid => ?_
  have hopens : S.opens .server := hdirect hT.needed f hfid
  refine returns_then (throws_xattrWalk hopens f _).returns hT.needed rfl fun x hx => ?_
  have hadmits : S.Admits x.root := hx ▸ hroot _ hfid
  refine returns_then (returns_getSize hadmits) hT.needed rfl fun size _ => ?_
  refine emplace_then hT.needed rfl fun hnew => ?_
  have hheirs : T.Heirs h (h.setFid (leAt 0 4 (b.drop 4)) (some (.xattr x))) :=
    Terms.heirs_emplace hnew (hx.symm ▸ hsource (.file f) hfid : T.source x.root)
  refine ensureSize_then hw (fun hlt => ⟨hT.needed, S.own _ (by decide), hheirs, fun hs => ?_⟩) ?_
  · have hnegotiated : 64 ≤ h.negotiatedSize := h.size_ge
    have := hsteady hs f hfid hnew
    change h.negotiatedSize < 15 ∨ w.size < 15 at hlt
    omega
  · exact putUint_done hT.needed hheirs (by decide) rfl

omit hw in
theorem at_createFile {c : Context} {root : Root} (hroot : S.Admits root) (hT : T.needed)
    (hc : T.view c.handler = T.view h) :
    At S T c (createFile root) (fun r c' => r.1.root = root ∧ c' = c) (T.Failed S h) :=
  onFile_then hT hc (spec_init hroot) fun _ _ hr => Action.spec_pure fun _ hc' => ⟨hr, hc'⟩

theorem at_attached {h' : Handler} {root : Root} {fid : Nat} (hroot : S.Admits root)
    (hsource : T.source root) (hT : T.needed) (hfids : h'.fids = h.fids) (hview : T.view h' = T.view h)
    (hsteady : T.steady → h.fids fid = none → 20 ≤ w.size) :
    At S T ⟨h', b, w⟩ (do
        let (file, qid) ← createFile root
        emplaceFid fid (.file file)
        ensureSize .attach 0
        SpanWriter.write (qidBytes qid)) (T.Done h .attach) (T.Failed S h) := by
  refine (at_createFile hroot hT hview).bind ?_
  rintro ⟨file, qid⟩ _ ⟨hfile, rfl⟩
  refine emplace_then hT hview fun hnew => ?_
  have hheirs : T.Heirs h (h'.setFid fid (some (.file file))) := by
    refine Terms.heirs_update (congrArg (Function.update · fid _) hfids) ?_
    rintro _ ⟨⟩
    exact .inr ⟨hfids ▸ hnew, (hfile.symm ▸ hsource : T.source file.root)⟩
  refine ensureSize_then hw (fun hlt => ⟨hT, S.own _ (by decide), hheirs, fun hs => ?_⟩) ?_
  · have hnegotiated : 64 ≤ h'.negotiatedSize := h'.size_ge
    have := hsteady hs (hfids ▸ hnew)
    change h'.negotiatedSize < 20 ∨ w.size < 20 at hlt
    omega
  · exact putQid_done hT hheirs (by decide) rfl

theorem keeps_attach (hwatched : S.watched = none) (hsource : ∀ root, T.source root)
    (hT : T.Reads (requestFields .attach) b)
    (hsteady : T.steady → h.fids (leAt 0 4 b) = none → 20 ≤ w.size) :
    Keeps S T h b w .attach handleAttach := by
  refine uint_then hT fun hT => uint_then hT fun hT => string_then hT fun hT => ?_
  refine string_then hT fun hT => uint_then hT fun hT => .get_then ?_
  refine returns_then (throws_makeRoot _ _ _).returns hT.needed rfl fun root _ => .modify_then ?_
  have hroot : S.Admits root := by
    rw [Setting.Admits, hwatched]
    exact nofun
  exact at_attached hw hroot (hsource root) hT.needed rfl rfl hsteady

theorem keeps_version (hgate : h.negotiated → h.allowRenegotiate = false → T.needed)
    (hT : (h.negotiated → h.allowRenegotiate) → T.Reads (requestFields .version) b)
    (hsteady : T.steady → h.negotiated = false → minimumRequestBufferSize ≤ leAt 0 4 b →
      stringAt (b.drop 4) = protocolVersionW ∨ stringAt (b.drop 4) = protocolVersionL → 21 ≤ w.size) :
    Keeps S T h b w .version handleVersion := by
  refine .get_then (.ite (fun hN => Action.spec_throw ?_) fun hN => ?_)
  · rintro _ rfl
    exact failed_unchanged (hgate hN.1 (Bool.eq_false_iff.mpr hN.2)) (S.own _ (by decide)) rfl
  refine uint_then (hT fun hn => by_contra fun hno => hN ⟨hn, hno⟩) fun hT => string_then hT fun hT => ?_
  have hrefused {P : Context → Prop} (hP : ∀ c, P c → T.view c.handler = T.view h) :
      Action.Spec (S.interface .server) P (Action.throw enotsup : Op Context Unit) (T.Done h .version)
        (T.Failed S h) (T.Stuck S) :=
    Action.spec_throw fun c hc => failed_unchanged hT.needed (S.own _ (by decide)) (hP c hc)
  have hview (c : Context) (hc : c = ⟨h, (b.drop 4).drop (2 + stringLength (b.drop 4)), w⟩) :
      T.view c.handler = T.view h := hc ▸ rfl
  by_cases hsize : leAt 0 4 b < minimumRequestBufferSize
  · rw [dif_pos hsize]
    exact hrefused hview
  rw [dif_neg hsize]
  refine .ite (fun _ => hrefused hview) fun hversion => .ite (fun _ => hrefused hview) fun hsame => ?_
  have hknown : stringAt (b.drop 4) = protocolVersionW ∨ stringAt (b.drop 4) = protocolVersionL := by
    by_contra hno
    exact hversion (not_or.mp hno)
  have hlength : (stringAt (b.drop 4)).length = 8 := by
    rcases hknown with hknown | hknown
    · rw [hknown]
      rfl
    · rw [hknown]
      rfl
  have hle : minimumRequestBufferSize ≤ leAt 0 4 b := Nat.le_of_not_lt hsize
  refine .modify_then (ensureSize_then hw (fun hlt =>
    ⟨hT.needed, S.own _ (by decide), Terms.heirs_of_fids rfl, fun hs => ?_⟩) ?_)
  · cases hnegotiated : h.negotiated with
    | true =>
      have hequal := fun hdiff => hsame ⟨hnegotiated, hdiff⟩
      obtain ⟨huse, hsize'⟩ := not_or.mp hequal
      exact congrArg₂ (fun use size => ((fun fid => (h.fids fid).map T.see), size, true, use))
        (not_not.mp huse) (not_not.mp hsize') |>.trans (by rw [Terms.view, hnegotiated])
    | false =>
      have := hsteady hs hnegotiated hle hknown
      rw [hlength] at hlt
      change min (leAt 0 4 b) maximumRequestBufferSize < 21 ∨ w.size < 21 at hlt
      simp only [minimumRequestBufferSize, maximumRequestBufferSize] at hle hlt
      omega
  · rw [hlength]
    refine putUint_then (by decide) ((writes_string ?_ ?_).post fun _ _ hc =>
      hc.done_self hT.needed (Terms.heirs_of_fids rfl) rfl)
    · rw [hlength]
      decide
    · rw [hlength]
      decide

/-! ### Walks -/

omit hw in
theorem writes_walkNames {root : Root} (hroot : S.Admits root) {file : File} (hfile : file.root = root)
    (names : List Bytes) {part : Bytes} (hT : T.needed) :
    Action.Spec (S.interface .server) (Wrote h [] part (names.length * qidSize)) (walkNames file names)
      (fun g c => g.root = root ∧ ∃ s, s.length = names.length * qidSize ∧ Wrote h [] (part ++ s) 0 c)
      (T.Failed S h) (T.Stuck S) := by
  induction names generalizing file part with
  | nil => exact Action.spec_pure fun c hc => ⟨hfile, [], rfl, by rwa [List.append_nil]⟩
  | cons name names ih =>
    refine Action.spec_of_state fun c hc => ?_
    have hview : T.view c.handler = T.view h := congrArg T.view hc.1
    refine onFile_then hT hview (spec_walk (hfile ▸ hroot) name) fun r file' hr => ?_
    refine returns_then (throws_orFail hr.1.1).returns hT hview fun qid _ => ?_
    have hroom : (names.length + 1) * qidSize - qidSize = names.length * qidSize := by
      rw [Nat.succ_mul, Nat.add_sub_cancel]
    have hwrite : Action.Spec (S.interface .server) (fun c' => c' = c) (SpanWriter.write (qidBytes qid))
        (fun _ => Wrote h [] (part ++ qidBytes qid) (names.length * qidSize)) (T.Failed S h)
        (T.Stuck S) := by
      refine ((spec_write ?_).pre fun _ hc' => hc' ▸ hc).post fun _ _ hc' => ?_
      · rw [length_qidBytes, List.length_cons, Nat.succ_mul]
        exact Nat.le_add_left _ _
      · rwa [length_qidBytes, List.length_cons, hroom] at hc'
    refine hwrite.bind fun _ => (ih (hr.1.2.trans hfile)).post ?_
    rintro g c' ⟨hg, s, hs, hc'⟩
    refine ⟨hg, qidBytes qid ++ s, ?_, by rwa [← List.append_assoc]⟩
    rw [List.length_append, length_qidBytes, hs, List.length_cons, Nat.succ_mul, Nat.add_comm]

theorem keeps_walk (hroot : OfRoot h b S.Admits) (hsource : OfRoot h b T.source)
    (hT : T.Reads (requestFields .walk) b) : Keeps S T h b w .walk handleWalk := by
  refine uint_then hT fun hT => uint_then hT fun hT => ?_
  simp only [List.drop_drop, Nat.reduceAdd] at hT ⊢
  have hcount : leAt 0 2 (b.drop 8) < 2 ^ 16 := leAt_lt 0 2 _
  refine nameCount_then hT fun hT => (at_names hT).bind ?_
  rintro names _ ⟨⟨hlength, hneeded⟩, b', rfl⟩
  refine file_then hneeded (S.own _ (by decide)) fun f hfid => ?_
  have hroom : getMessageSize .walk + leAt 0 2 (b.drop 8) * qidSize - headerSize =
      2 + names.length * qidSize := by
    rw [hlength]
    simp only [getMessageSize]
    omega
  refine ensureSize_then hw (fun _ => failed_unchanged hneeded (S.own _ (by decide)) rfl) ?_
  rw [hroom]
  have hcountWritten : Action.Spec (S.interface .server) (Wrote h [] [] (2 + names.length * qidSize))
      (SpanWriter.uint 2 (leAt 0 2 (b.drop 8)))
      (fun _ => Wrote h [] (leBytes 2 (leAt 0 2 (b.drop 8))) (names.length * qidSize)) (T.Failed S h)
      (T.Stuck S) := by
    refine (spec_write ?_).post fun _ _ hc => ?_
    · rw [length_leBytes]
      exact Nat.le_add_right _ _
    · rwa [length_leBytes, Nat.add_sub_cancel_left, List.nil_append] at hc
  refine hcountWritten.bind fun _ => ?_
  have hclone : f.clone.root = f.root := rfl
  refine (writes_walkNames (hroot (.file f) hfid) hclone names hneeded).bind fun file => ?_
  refine Action.spec_of_state fun c hc => ?_
  obtain ⟨hfile, s, hs, hwrote⟩ := hc
  have hspelled : Field.qids.IsSpelled (leBytes 2 (leAt 0 2 (b.drop 8)) ++ s) :=
    ⟨_, s, hcount, hlength ▸ hs, rfl⟩
  have hreply := hwrote.close hspelled
  obtain ⟨h', b'', w'⟩ := c
  obtain rfl : h = h' := hreply.1.symm
  refine (at_emplace hneeded rfl).post ?_
  rintro _ _ ⟨hnew, rfl⟩
  have hheirs : T.Heirs h (h.setFid (leAt 0 4 (b.drop 4)) (some (.file file))) :=
    Terms.heirs_emplace hnew (hfile.symm ▸ hsource (.file f) hfid : T.source file.root)
  exact hreply.done hneeded hheirs rfl rfl

theorem keeps_flush {tag : Nat} (hT : T.Reads (requestFields .flush) b)
    (hown : T.needed → leAt 0 2 b = tag → T.own) : Keeps S T h b w .flush (handleFlush tag) := by
  refine uint_then hT fun hT => .ite (fun htag => ?_) fun _ => ?_
  · exact Action.spec_halt fun _ _ => hown hT.needed htag
  refine Action.spec_pure ?_
  rintro _ rfl
  exact done_empty hT.needed Terms.heirs_refl hw rfl

omit hw in
theorem keeps_notSupported (t : MessageType) (hT : T.needed) :
    Keeps S T h b w t handleNotSupported := by
  refine Action.spec_throw ?_
  rintro _ rfl
  exact failed_unchanged hT (S.own _ (by decide)) rfl

end Handlers

end WslFreeBSD.Plan9
