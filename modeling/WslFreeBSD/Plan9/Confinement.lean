import WslFreeBSD.Lib.Agreement
import WslFreeBSD.Lib.Transitions
import WslFreeBSD.Plan9.ErrorCodes

/-!
# Requests in the name of their client

A server that runs as root should make the calls of a request that have a path with the identity that the
client has attached with, and have its own identity behind them. This holds of every run whose requests
are `Tame`: none of them makes its calls as the server for a user (`CallsAsServer`), no client attaches
with the uid `-1`, the calls that take the server's identity back are successful, and of those that take
the identity of the client only the first one fails.

The calls of an attach come in two parts: what the system says about the user, and what is done with the
root that is made of it. The rest of the requests find the root in their fid; a fid has the root of an
attach, because new fids inherit it.
-/

namespace WslFreeBSD.Plan9

open Lib

/-! ## What is known of a user -/

/-- What the system has said about a user. -/
structure Known (uid : Nat) (t : Program.Trace Syscall Syscall.Answer) (i : Identity) : Prop where
  hasUid : i.uid = uid
  /-- the group of the user, or else that of nobody -/
  hasGid : ⟨.getUserGroupId uid, i.gid⟩ ∈ t ∨
    ⟨.getUserGroupId uid, invalidId⟩ ∈ t ∧ ⟨.getGroupIdByName nobodyGroupName, i.gid⟩ ∈ t
  /-- without an answer, there are no groups -/
  hasGroups : ∃ answer : Option (List Nat), ⟨.getgrouplist uid i.gid, answer⟩ ∈ t ∧
    i.groups = answer.getD []

/-- The identity that a client has attached with; root is the server itself. -/
def AttachedAs (uid : Nat) (t : Program.Trace Syscall Syscall.Answer) (i : Identity) : Prop :=
  if uid = 0 then i = .server else Known uid t i

theorem Known.mono {uid : Nat} {t u : Program.Trace Syscall Syscall.Answer} {i : Identity}
    (h : Known uid t i) (htu : t ⊆ u) : Known uid u i where
  hasUid := h.hasUid
  hasGid := h.hasGid.imp (htu ·) fun h => ⟨htu h.1, htu h.2⟩
  hasGroups := h.hasGroups.imp fun _ h => ⟨htu h.1, h.2⟩

theorem AttachedAs.mono {uid : Nat} {t u : Program.Trace Syscall Syscall.Answer} {i : Identity}
    (h : AttachedAs uid t i) (htu : t ⊆ u) : AttachedAs uid u i := by
  unfold AttachedAs at h ⊢
  split
  · next huid => rwa [if_pos huid] at h
  · next huid =>
    rw [if_neg huid] at h
    exact h.mono htu

def AsRoot (t : Program.Trace Syscall Syscall.Answer) : Prop := ∀ uid : Nat, ⟨.geteuid, uid⟩ ∈ t → uid = 0

/-- The root of an attach is for the user, and knows it by what the system has said. -/
structure Root.MadeFor (root : Root) (id uid : Nat) (t : Program.Trace Syscall Syscall.Answer) : Prop where
  id_eq : root.id = id
  proper : root.Proper
  attached : AttachedAs uid t root.identity

theorem Root.MadeFor.mono {root : Root} {id uid : Nat} {t u : Program.Trace Syscall Syscall.Answer}
    (h : root.MadeFor id uid t) (htu : t ⊆ u) : root.MadeFor id uid u :=
  ⟨h.id_eq, h.proper, h.attached.mono htu⟩

/-! ## The two parts of an attach -/

def Plain (t : Program.Trace Syscall Syscall.Answer) : Prop := ∀ c ∈ t, c.1.kind = .plain

theorem plain_nil : Plain [] := nofun

theorem plain_cons {e : Syscall} {r : e.Answer} {t : Program.Trace Syscall Syscall.Answer}
    (he : e.kind = .plain) (ht : Plain t) : Plain (⟨e, r⟩ :: t) := List.forall_mem_cons.mpr ⟨he, ht⟩

theorem Plain.confined {t : Program.Trace Syscall Syscall.Answer} (ht : Plain t) (root : Root) :
    Confined root t := by
  refine confined_of_kind fun c hc => ?_
  rw [ht c hc]
  exact ⟨nofun, nofun⟩

theorem ensures_call_bind {κ η σ β : Type} {e : Syscall}
    {f : e.Answer → Action Syscall Syscall.Answer κ η σ β} {s : σ}
    {Q : Outcome κ η β × σ → Program.Trace Syscall Syscall.Answer → Prop}
    (h : ∀ r, (f r s).Ensures fun o t => Q o (⟨e, r⟩ :: t)) :
    ((Action.call e >>= f) s).Ensures Q := h

theorem groupFor_ensures (uid : Nat) : (groupFor uid ()).Ensures fun r t =>
    Plain t ∧ ∀ gid, r.1 = .value gid → gid ≠ invalidId ∧ (⟨.getUserGroupId uid, gid⟩ ∈ t ∨
      ⟨.getUserGroupId uid, invalidId⟩ ∈ t ∧ ⟨.getGroupIdByName nobodyGroupName, gid⟩ ∈ t) := by
  rw [groupFor]
  refine ensures_call_bind fun (gid : Nat) => ?_
  by_cases hgid : gid ≠ invalidId
  · rw [if_pos hgid]
    refine ⟨plain_cons rfl plain_nil, ?_⟩
    rintro _ ⟨⟩
    exact ⟨hgid, .inl (.head _)⟩
  · rw [if_neg hgid]
    refine ensures_call_bind fun (nobody : Nat) => ?_
    by_cases hnobody : nobody ≠ invalidId
    · rw [if_pos hnobody]
      refine ⟨plain_cons rfl (plain_cons rfl plain_nil), ?_⟩
      rintro _ ⟨⟩
      refine ⟨hnobody, .inr ⟨?_, .tail _ (.head _)⟩⟩
      rw [← not_not.mp hgid]
      exact .head _
    · rw [if_neg hnobody]
      exact ⟨plain_cons rfl (plain_cons rfl plain_nil), nofun⟩

theorem makeRoot_ensures (id : Nat) (aname : Bytes) (uid : Nat) :
    (makeRoot id aname uid ()).Ensures fun r t => Plain t ∧ ∀ root, r.1 = .value root → AsRoot t →
      uid ≠ invalidId → root.MadeFor id uid t := by
  rw [makeRoot]
  refine ensures_call_bind fun share => ?_
  cases share with
  | none => exact ⟨plain_cons rfl plain_nil, nofun⟩
  | some rootFd =>
    refine ensures_call_bind fun (currentUid : Nat) => ?_
    by_cases hown : uid = currentUid
    · -- the client is the server itself
      rw [if_pos hown]
      refine ⟨plain_cons rfl (plain_cons rfl plain_nil), ?_⟩
      rintro _ ⟨⟩ hroot -
      have hzero : uid = 0 := hown.trans (hroot currentUid (.tail _ (.head _)))
      refine ⟨rfl, .inl ⟨rfl, rfl, rfl⟩, ?_⟩
      rw [AttachedAs, if_pos hzero]
      rfl
    rw [if_neg hown]
    by_cases hserver : currentUid = 0
    · rw [if_pos hserver]
      refine Program.ensures_bind.mpr ((groupFor_ensures uid).mono ?_)
      rintro ⟨o, _⟩ t ⟨hplain, hgroup⟩
      cases o with
      | halted x => exact x.elim
      | error e => exact ⟨plain_cons rfl (plain_cons rfl ((List.append_nil t).symm ▸ hplain)), nofun⟩
      | value gid =>
        obtain ⟨hgid, hsaid⟩ := hgroup gid rfl
        change ((if uid = invalidId then pure (⟨id, rootFd, uid, gid, []⟩ : Root) else do
          let groups : Option (List Nat) ← Action.call (Syscall.getgrouplist uid gid)
          return ⟨id, rootFd, uid, gid, groups.getD []⟩ : Calls Root) ()).Ensures _
        by_cases hinvalid : uid = invalidId
        · rw [if_pos hinvalid]
          rw [← List.append_nil t] at hplain
          exact ⟨plain_cons rfl (plain_cons rfl hplain), fun _ _ _ huid => absurd hinvalid huid⟩
        · rw [if_neg hinvalid]
          refine ensures_call_bind fun (groups : Option (List Nat)) => ?_
          refine ⟨plain_cons rfl (plain_cons rfl (List.forall_mem_append.mpr
            ⟨hplain, plain_cons rfl plain_nil⟩)), ?_⟩
          rintro _ ⟨⟩ - -
          have hproper : (⟨id, rootFd, uid, gid, groups.getD []⟩ : Root).Proper := .inr ⟨hinvalid, hgid⟩
          have hsub : t ⊆ ⟨.share aname, some rootFd⟩ :: ⟨.geteuid, currentUid⟩ ::
              (t ++ [⟨.getgrouplist uid gid, groups⟩]) := fun c hc =>
            .tail _ (.tail _ (List.mem_append_left _ hc))
          refine ⟨rfl, hproper, ?_⟩
          rw [AttachedAs, if_neg fun hzero => hown (hzero.trans hserver.symm),
            (hproper.identity_eq hinvalid).2]
          refine ⟨rfl, hsaid.imp (hsub ·) fun h => ⟨hsub h.1, hsub h.2⟩, groups, ?_, rfl⟩
          exact .tail _ (.tail _ (List.mem_append_right _ (.head _)))
    · rw [if_neg hserver]
      exact ⟨plain_cons rfl (plain_cons rfl plain_nil), nofun⟩

/-! ## Handlers that are watched -/

/-- The identity of a root can be taken and be left, unless its first call fails. -/
def Settled (root : Root) (t : Program.Trace Syscall Syscall.Answer) : Prop :=
  Action.Given (fun e r => Restored e r ∧ Entered root e r) t

def Setting.watching (root : Root) : Setting where
  errors := fun _ => True
  own := fun _ _ => trivial
  restored := False
  async := True
  watched := some root

theorem Setting.watching_admits {root : Root} (hproper : root.Proper) :
    (Setting.watching root).Admits root := by
  rintro _ ⟨⟩
  exact ⟨rfl, hproper⟩

theorem Settled.rely {root : Root} {t : Program.Trace Syscall Syscall.Answer} (h : Settled root t) :
    Action.Given (Setting.watching root).rely t := by
  refine fun c hc => ⟨fun _ _ => trivial, False.elim, ?_⟩
  rintro _ ⟨⟩
  exact h c hc

/-- What a handler leaves behind: the calls are confined, and the fids have the roots that they can have. -/
def Leaves (h : Handler) (source : Root → Prop) (root : Root) (r : Outcome Int Halt Unit × Context)
    (t : Program.Trace Syscall Syscall.Answer) : Prop :=
  Confined root t ∧ ((∀ x, r.1 ≠ .halted x) → ∀ fid item, r.2.handler.fids fid = some item →
    (∃ old, h.fids fid = some old ∧ old.root = item.root) ∨ source item.root)

section Handlers

variable {h : Handler} {b : Bytes} {w : MessageResponse} {root : Root}

theorem leaves_of_at {T : Terms} {t : MessageType} {m : Op Context Unit} {h' : Handler}
    (hm : At (.watching root) T ⟨h', b, w⟩ m (T.Done h t) (T.Failed (.watching root) h)) :
    (m ⟨h', b, w⟩).Ensures fun r u => Settled root u → Leaves h T.source root r u := by
  refine Program.Ensures.mono (hm _ rfl) fun r u hends hsettled => ?_
  obtain ⟨hguarantee, hends⟩ := hends hsettled.rely
  refine ⟨hguarantee.2 root rfl, fun hhalted fid item hitem => ?_⟩
  obtain ⟨o, c⟩ := r
  have hheirs : T.Heirs h c.handler := by
    cases o with
    | value u => exact hends.2.1
    | error e => exact hends.2.2.1
    | halted x => exact absurd rfl (hhalted x)
  exact (hheirs fid item hitem).imp_right And.right

theorem handleMessage_leaves (tag : Nat) {t : MessageType} (hw : w.written = []) (ht : t ≠ .attach)
    (hroot : OfRoot h b (· = root)) (hproper : OfRoot h b Root.Proper)
    (hserver : Needed h t b → CallsAsServer h t b → root.identity = .server) :
    (handleMessage tag t ⟨h, b, w⟩).Ensures fun r u => Settled root u →
      Leaves h (fun new => ∃ item, h.fids (leAt 0 4 b) = some item ∧ item.root = new) root r u := by
  have hsuits : (Setting.watching root).Suits h t b w := by
    refine ⟨fun item hitem => ?_, fun hneeded hcalls => ?_, fun _ _ => trivial, fun h => absurd h ht⟩
    · have hsame : item.root = root := hroot item hitem
      rw [hsame]
      exact Setting.watching_admits (hsame ▸ hproper item hitem)
    · rintro _ ⟨⟩
      exact hserver hneeded hcalls
  have hkeeps : Keeps (.watching root) { requestTerms h tag t b w.size with steady := False } h b w t
      (handleMessage tag t) := keeps_handleMessage_when hw False.elim hsuits
  refine (leaves_of_at hkeeps).mono ?_
  intro r u hleaves hsettled
  obtain ⟨hconfined, hheirs⟩ := hleaves hsettled
  refine ⟨hconfined, fun hhalted fid item hitem => (hheirs hhalted fid item hitem).imp_right ?_⟩
  exact fun hsource => hsource.resolve_left ht

/-! ### Attaching -/

variable {β : Type} {Q : Outcome Int Halt β × Context → Program.Trace Syscall Syscall.Answer → Prop}

theorem uint_then_ensures {n : Nat} {k : Nat → Op Context β}
    (hk : (k (leAt 0 n b) ⟨h, b.drop n, w⟩).Ensures Q) (hshort : ∀ c, Q (.halted .readPast, c) []) :
    ((SpanReader.uint n >>= k) ⟨h, b, w⟩).Ensures Q := by
  by_cases hlen : n ≤ b.length
  · rw [Action.bind_of_value (uint_run hlen)]
    exact hk
  · rw [Action.bind_of_halted (uint_short (Nat.lt_of_not_le hlen))]
    exact hshort _

theorem string_then_ensures {k : Bytes → Op Context β}
    (hk : (k (stringAt b) ⟨h, b.drop (2 + stringLength b), w⟩).Ensures Q)
    (hshort : ∀ c, Q (.halted .readPast, c) []) : ((SpanReader.string >>= k) ⟨h, b, w⟩).Ensures Q := by
  by_cases hb : holdsString b
  · rw [Action.bind_of_value (string_run hb)]
    exact hk
  · obtain ⟨c, hc⟩ := string_short (h := h) (w := w) hb
    rw [Action.bind_of_halted hc]
    exact hshort c

theorem get_then_ensures {k : Context → Op Context β} {c : Context} (hk : (k c c).Ensures Q) :
    ((Action.get >>= k) c).Ensures Q := hk

theorem embed_then_ensures {α : Type} {m : Calls α} {k : α → Op Context β} {c : Context}
    {A : Outcome Int Empty α → Program.Trace Syscall Syscall.Answer → Prop}
    (hm : (m ()).Ensures fun r t => A r.1 t)
    (hk : ∀ a t, A (.value a) t → (k a c).Ensures fun r u => Q r (t ++ u))
    (herror : ∀ e t, A (.error e) t → Q (.error e, c) t) : ((m.embed >>= k) c).Ensures Q := by
  refine Program.ensures_bind.mpr (Program.ensures_bind.mpr (hm.mono ?_))
  rintro ⟨o, _⟩ t ht
  cases o with
  | value a =>
    change (k a c).Ensures fun r u => Q r ((t ++ []) ++ u)
    rw [List.append_nil]
    exact hk a t ht
  | error e =>
    change Q (.error e, c) ((t ++ []) ++ [])
    rw [List.append_nil, List.append_nil]
    exact herror e t ht
  | halted x => exact x.elim

def attachUid (b : Bytes) : Nat :=
  let b := (b.drop 4).drop 4
  let b := b.drop (2 + stringLength b)
  leAt 0 4 (b.drop (2 + stringLength b))

/-- A client attaches with a uid of its own to a server that runs as root, and its identity can be taken
and be left. -/
structure TameAttach (uid : Nat) (t : Program.Trace Syscall Syscall.Answer) : Prop where
  named : uid ≠ invalidId
  asRoot : AsRoot t
  settled : ∀ root : Root, root.Proper → AttachedAs uid t root.identity → Settled root t

/-- What an attach comes to: its calls are made in the name of the root that it makes, if it makes one,
and a new fid has that root. -/
def Attaches (h : Handler) (uid : Nat) (r : Outcome Int Halt Unit × Context)
    (t : Program.Trace Syscall Syscall.Answer) : Prop :=
  ∃ root : Root, (Plain t ∨ root.MadeFor h.nextRoot uid t) ∧
    Leaves h (fun new => new.MadeFor h.nextRoot uid t) root r t

theorem attaches_of_plain {uid : Nat} {r : Outcome Int Halt Unit × Context}
    {t : Program.Trace Syscall Syscall.Answer} (ht : Plain t)
    (hr : (∀ x, r.1 ≠ .halted x) → r.2.handler.fids = h.fids) : Attaches h uid r t := by
  refine ⟨⟨0, 0, 0, 0, []⟩, .inl ht, ht.confined _, fun hhalted fid item hitem => .inl ⟨item, ?_, rfl⟩⟩
  rwa [hr hhalted] at hitem

theorem root_id (item : Fid) : (id item).root = item.root := rfl

/-- The terms of what follows in an attach behind its root. -/
def rootTerms (root : Root) : Terms where
  needed := True
  enough := True
  steady := False
  overrun := True
  own := True
  source := (· = root)
  see := id
  see_root := root_id

theorem attached_leaves (hw : w.written = []) (hproper : root.Proper) (fid n : Nat) :
    ((do
        let (file, qid) ← createFile root
        emplaceFid fid (.file file)
        ensureSize .attach 0
        SpanWriter.write (qidBytes qid) : Op Context Unit) ⟨{ h with nextRoot := n }, b, w⟩).Ensures
      fun r u => Settled root u → Leaves h (· = root) root r u := by
  have hlate : (rootTerms root).steady → h.fids fid = none → 20 ≤ w.size := False.elim
  have hadmits : (Setting.watching root).Admits root := Setting.watching_admits hproper
  exact leaves_of_at (T := rootTerms root) (at_attached hw hadmits rfl trivial rfl rfl hlate)

theorem handleAttach_ensures (hw : w.written = []) : (handleAttach ⟨h, b, w⟩).Ensures fun r t =>
    TameAttach (attachUid b) t → Attaches h (attachUid b) r t := by
  have hshort (c : Context) :
      TameAttach (attachUid b) [] → Attaches h (attachUid b) (.halted .readPast, c) [] :=
    fun _ => attaches_of_plain plain_nil fun hhalted => absurd rfl (hhalted _)
  rw [handleAttach]
  refine uint_then_ensures ?_ hshort
  refine uint_then_ensures ?_ hshort
  refine string_then_ensures ?_ hshort
  refine string_then_ensures ?_ hshort
  refine uint_then_ensures ?_ hshort
  refine get_then_ensures (embed_then_ensures (A := fun o t => Plain t ∧ ∀ root, o = .value root →
    AsRoot t → attachUid b ≠ invalidId → root.MadeFor h.nextRoot (attachUid b) t)
    (makeRoot_ensures _ _ _) ?_ ?_)
  · rintro root t ⟨hplain, hmade⟩
    by_cases hproper : root.Proper
    · refine (attached_leaves hw hproper (leAt 0 4 b) (h.nextRoot + 1)).mono ?_
      rintro r u hleaves ⟨huid, hserver, hsettled⟩
      have hsub : t ⊆ t ++ u := List.subset_append_left t u
      have hroot := (hmade root rfl (fun uid hmem => hserver uid (hsub hmem)) huid).mono hsub
      have hrest : Settled root u := (Action.given_append.mp (hsettled root hproper hroot.attached)).2
      obtain ⟨hconfined, hfids⟩ := hleaves hrest
      refine ⟨root, .inr hroot, (hplain.confined root).append hconfined, fun hhalted fid item hitem => ?_⟩
      refine (hfids hhalted fid item hitem).imp_right fun (hnew : item.root = root) => ?_
      rwa [hnew]
    · refine (Program.ensures_true _).mono fun r u _ htame => ?_
      have hroot := hmade root rfl (fun uid hmem => htame.asRoot uid (List.mem_append_left u hmem))
        htame.named
      exact absurd hroot.proper hproper
  · rintro e t ⟨hplain, -⟩ -
    exact attaches_of_plain hplain fun _ => rfl

/-! ### Messages -/

theorem finishMessage_handler {m : Bytes} (r : Except Int Unit) (c : Context) :
    ∃ o c', finishMessage m w r c = pure (o, c') ∧ c'.handler = c.handler := by
  cases r with
  | ok u => exact ⟨_, _, rfl, rfl⟩
  | error e =>
    by_cases hfits : headerSize + (w.written ++ leBytes 4 (ecodeOf e)).length ≤ w.size
    · have hwrite := write_run (h := c.handler) (b := c.message) hfits
      exact ⟨_, _, (Action.bind_of_value rfl).trans (Action.bind_of_value hwrite), rfl⟩
    · have hwrite := write_past (h := c.handler) (b := c.message) hfits
      exact ⟨_, _, (Action.bind_of_value rfl).trans (Action.bind_of_halted hwrite), rfl⟩

theorem respond_ensures {m : Bytes} (hm : headerSize ≤ m.length)
    {A : Outcome Int Halt Unit × Context → Program.Trace Syscall Syscall.Answer → Prop}
    (hA : (handlerOf m ⟨h, m.drop headerSize, w⟩).Ensures A) : (respond m w h).Ensures fun r t =>
      ∃ r', A r' t ∧ ∀ reply, r.1 = .value reply → (∀ x, r'.1 ≠ .halted x) ∧ r.2 = r'.2.handler := by
  change (processMessage ⟨h, m, w⟩ >>= _).Ensures _
  rw [processMessage_run hm]
  refine Program.ensures_bind.mpr (Program.ensures_bind.mpr (Program.ensures_bind.mpr (hA.mono ?_)))
  rintro ⟨o, c⟩ t ht
  have hfinished (r : Except Int Unit) (hr : ∀ x, o ≠ .halted x) : (finishMessage m w r c).Ensures
      fun r u => ∃ r', A r' (t ++ [] ++ u ++ []) ∧
        ∀ reply, r.1 = .value reply → (∀ x, r'.1 ≠ .halted x) ∧ r.2.handler = r'.2.handler := by
    obtain ⟨o', c', hfinish, hhandler⟩ := finishMessage_handler (m := m) (w := w) r c
    rw [hfinish]
    exact ⟨(o, c), by simpa using ht, fun _ _ => ⟨hr, hhandler⟩⟩
  cases o with
  | value u => exact hfinished (.ok u) nofun
  | error e => exact hfinished (.error e) nofun
  | halted x => exact ⟨(.halted x, c), by simpa using ht, nofun⟩

end Handlers

/-! ### Directories that have no entries -/

def IsEntry (c : Σ e : Syscall, e.Answer) : Prop :=
  ∃ fd entry, c = ⟨.readdir fd, .ok (some entry)⟩

theorem follows_next {β : Type} {fd : Nat} {f g : Option Dirent → Op File β} (hend : f none = g none) :
    Action.Follows IsEntry (File.next fd >>= f) (File.next fd >>= g) := by
  intro file
  refine Program.follows_call fun r hr => ?_
  rcases (r : Except Errno (Option Dirent)) with e | (_ | entry)
  · exact Program.follows_refl _
  · change Program.Follows IsEntry (f none file) (g none file)
    rw [hend]
    exact Program.follows_refl _
  · exact absurd ⟨fd, entry, rfl⟩ hr

theorem follows_readEntries (fd room : Nat) (dirEntriesWritten : Bool) :
    Action.Follows IsEntry (File.readEntries fd true room dirEntriesWritten)
      (File.readEntries fd false room dirEntriesWritten) := by
  rw [File.readEntries, File.readEntries]
  exact follows_next rfl

/-- `HandleReadDir` behind its first check. -/
def handleReadDirBody (includeAttributes : Bool) : Op Context Unit := do
  let fid ← SpanReader.uint 4
  let offset ← SpanReader.uint 8
  let count ← SpanReader.uint 4
  let entry ← lookupFid fid
  ensureSize .readdir count
  SpanWriter.peek (4 + count)
  let written ← onFid fid entry (Fid.onFile (File.readDir offset count includeAttributes))
  SpanWriter.uint 4 written.length
  SpanWriter.write written

theorem handleReadDir_run {h : Handler} {b : Bytes} {w : MessageResponse} {includeAttributes : Bool}
    (hallowed : includeAttributes → h.use9P2000W) :
    handleReadDir includeAttributes ⟨h, b, w⟩ = handleReadDirBody includeAttributes ⟨h, b, w⟩ := by
  change (if includeAttributes ∧ ¬ h.use9P2000W then Action.throw enotsup
    else handleReadDirBody includeAttributes : Op Context Unit) ⟨h, b, w⟩ = _
  rw [if_neg fun hno => hno.2 (hallowed hno.1)]

theorem follows_handleReadDir {h : Handler} {b : Bytes} {w : MessageResponse} (huse : h.use9P2000W) :
    Program.Follows IsEntry (handleReadDir true ⟨h, b, w⟩) (handleReadDir false ⟨h, b, w⟩) := by
  have hreadDir (offset count : Nat) : Action.Follows IsEntry (File.readDir offset count true)
      (File.readDir offset count false) :=
    .then _ fun fd => .then _ fun _ => follows_readEntries fd count false
  have hfile (offset count : Nat) : Action.Follows IsEntry (Fid.onFile (File.readDir offset count true))
      (Fid.onFile (File.readDir offset count false)) := by
    refine .then _ fun item => ?_
    cases item with
    | file f => exact (hreadDir offset count).zoom _ _
    | xattr x => exact Action.follows_refl _
  have hbody : Action.Follows IsEntry (handleReadDirBody true) (handleReadDirBody false) :=
    .then _ fun fid => .then _ fun offset => .then _ fun count => .then _ fun entry => .then _ fun _ =>
      .then _ fun _ => ((hfile offset count).zoom _ _).bind fun written => Action.follows_refl _
  have hwith : handleReadDir true ⟨h, b, w⟩ = handleReadDirBody true ⟨h, b, w⟩ :=
    handleReadDir_run fun _ => huse
  have hwithout : handleReadDir false ⟨h, b, w⟩ = handleReadDirBody false ⟨h, b, w⟩ :=
    handleReadDir_run fun hno => absurd hno Bool.false_ne_true
  rw [hwith, hwithout]
  exact hbody _

/-- `Twreaddir` of a directory without entries is `Treaddir`. -/
theorem handleReadDir_leaves {h : Handler} {b : Bytes} {w : MessageResponse} {root : Root} (tag : Nat)
    (hw : w.written = []) (hroot : OfRoot h b (· = root)) (hproper : OfRoot h b Root.Proper)
    (huse : h.use9P2000W) :
    (handleMessage tag .wreaddir ⟨h, b, w⟩).Ensures fun r u => (∀ c ∈ u, ¬ IsEntry c) → Settled root u →
      Leaves h (fun new => ∃ item, h.fids (leAt 0 4 b) = some item ∧ item.root = new) root r u := by
  refine follows_handleReadDir huse _ ?_
  exact handleMessage_leaves tag (t := .readdir) hw nofun hroot hproper fun _ hcalls => hcalls.elim

/-- Calls for the request are made as the server. Only the attributes of the entries are asked for so by
`Twreaddir`. -/
def AsServer (h : Handler) (t : MessageType) (b : Bytes) (calls : Program.Trace Syscall Syscall.Answer) :
    Prop :=
  Needed h t b ∧ CallsAsServer h t b ∧ (t = .wreaddir → ∃ c ∈ calls, IsEntry c)

/-! ## Runs -/

/-- A message with the response that is made for it, and the system that answers the calls. -/
structure Arrival where
  message : Bytes
  response : MessageResponse
  unwritten : response.written = []
  env : Program.Environment Syscall Syscall.Answer

namespace Arrival

def calls (a : Arrival) (h : Handler) : Program.Trace Syscall Syscall.Answer :=
  ((respond a.message a.response h).run a.env []).2

def type (a : Arrival) : Option MessageType := messageType (leAt 4 1 a.message)

def body (a : Arrival) : Bytes := a.message.drop headerSize

end Arrival

/-- An attach: what its root is known by, the uid, and the calls. -/
structure Attachment where
  id : Nat
  uid : Nat
  calls : Program.Trace Syscall Syscall.Answer

/-- A handler with the attaches that it has replied to. -/
structure Clients where
  handler : Handler
  attachments : List Attachment

namespace Clients

def fresh (allowRenegotiate : Bool) : Clients := ⟨Handler.fresh allowRenegotiate, []⟩

/-- A message is handled; nothing follows a halt. -/
def step (s : Clients) (a : Arrival) : Option Clients :=
  match ((respond a.message a.response s.handler).run a.env []).1 with
  | (.value _, after) =>
    if a.type = some .attach then
      some ⟨after, ⟨s.handler.nextRoot, attachUid a.body, a.calls s.handler⟩ :: s.attachments⟩
    else some ⟨after, s.attachments⟩
  | _ => none

def HasRoot (s : Clients) (root : Root) : Prop := ∃ y ∈ s.attachments, root.MadeFor y.id y.uid y.calls

/-- The calls for a message are made in the name of the client that attaches, or has attached its fid. A
message without a fid makes no calls with a path: it is confined to every root. -/
def InName (s : Clients) (a : Arrival) : Prop :=
  match a.type with
  | some .attach => ∃ root : Root, (Plain (a.calls s.handler) ∨
      root.MadeFor s.handler.nextRoot (attachUid a.body) (a.calls s.handler)) ∧
        Confined root (a.calls s.handler)
  | _ => OfRoot s.handler a.body s.HasRoot ∧
      ∀ root, OfRoot s.handler a.body (· = root) → Confined root (a.calls s.handler)

/-- The message is not one of those whose calls are made as the server, and the identity of its client can
be taken and be left. -/
def Tame (s : Clients) (a : Arrival) : Prop :=
  match a.type with
  | some .attach => TameAttach (attachUid a.body) (a.calls s.handler)
  | some t => (AsServer s.handler t a.body (a.calls s.handler) →
      OfRoot s.handler a.body (·.identity = .server)) ∧
        ∀ root, OfRoot s.handler a.body (· = root) → Settled root (a.calls s.handler)
  | none => True

def Attached (s : Clients) : Prop := ∀ fid item, s.handler.fids fid = some item → s.HasRoot item.root

theorem run_respond {h : Handler} {a : Arrival} (hm : headerSize ≤ a.message.length)
    {A : Outcome Int Halt Unit × Context → Program.Trace Syscall Syscall.Answer → Prop}
    (hA : (handlerOf a.message ⟨h, a.body, a.response⟩).Ensures A) :
    ∃ r, A r (a.calls h) ∧ ∀ reply after,
      ((respond a.message a.response h).run a.env []).1 = (.value reply, after) →
        (∀ x, r.1 ≠ .halted x) ∧ after = r.2.handler := by
  obtain ⟨u, hu, r, hr, hafter⟩ := (respond_ensures hm hA).run a.env []
  refine ⟨r, ?_, fun reply after hrun => ?_⟩
  · rw [Arrival.calls, hu]
    exact hr
  · rw [hrun] at hafter
    exact hafter reply rfl

theorem fid_of_callsAsServer {h : Handler} {t : MessageType} {b : Bytes} (hcalls : CallsAsServer h t b) :
    ∃ item, h.fids (leAt 0 4 b) = some item := by
  cases t with
  | statfs | xattrwalk =>
    obtain ⟨f, hf⟩ := hcalls
    exact ⟨_, hf⟩
  | xattrcreate | clunk =>
    obtain ⟨f, hf, -⟩ := hcalls
    exact ⟨_, hf⟩
  | wreaddir =>
    obtain ⟨-, f, hf, -⟩ := hcalls
    exact ⟨_, hf⟩
  | _ => exact hcalls.elim

theorem exists_ofRoot (h : Handler) (b : Bytes) : ∃ root, OfRoot h b (· = root) := by
  cases hfid : h.fids (leAt 0 4 b) with
  | some item =>
    refine ⟨item.root, fun item' hitem' => ?_⟩
    rw [hfid] at hitem'
    cases hitem'
    rfl
  | none =>
    refine ⟨⟨0, 0, 0, 0, []⟩, fun item' hitem' => ?_⟩
    rw [hfid] at hitem'
    cases hitem'

section Step

variable {s s' : Clients} {a : Arrival}

theorem HasRoot.mono {root : Root} (h : s.HasRoot root) (hsub : s.attachments ⊆ s'.attachments) :
    s'.HasRoot root := h.imp fun _ h => ⟨hsub h.1, h.2⟩

theorem calls_of_short (hm : ¬ headerSize ≤ a.message.length) :
    a.calls s.handler = [] ∧ s.step a = none := by
  have hrun := respond_short (h := s.handler) (w := a.response) (Nat.lt_of_not_le hm)
  rw [Arrival.calls, step, hrun]
  exact ⟨rfl, rfl⟩

theorem attach_spec (hs : s.Attached) (ht : a.type = some .attach) (ha : s.Tame a) :
    s.InName a ∧ ∀ s', s.step a = some s' → s'.Attached := by
  rw [InName, ht]
  rw [Tame, ht] at ha
  by_cases hm : headerSize ≤ a.message.length
  · have hensures := handleAttach_ensures (h := s.handler) (b := a.body) a.unwritten
    have hhandler : handlerOf a.message = handleAttach := handlerOf_eq ht
    rw [← hhandler] at hensures
    obtain ⟨r, hattaches, hafter⟩ := run_respond hm hensures
    obtain ⟨root, hmade, hconfined, hfids⟩ := hattaches ha
    refine ⟨⟨root, hmade, hconfined⟩, fun s' hstep => ?_⟩
    rw [step] at hstep
    split at hstep
    · next reply after hrun =>
      rw [if_pos ht] at hstep
      cases hstep
      obtain ⟨hhalted, rfl⟩ := hafter reply after hrun
      intro fid item hitem
      rcases hfids hhalted fid item hitem with ⟨old, hold, hroot⟩ | hnew
      · rw [← hroot]
        exact (hs fid old hold).mono (List.subset_cons_self _ _)
      · exact ⟨_, .head _, hnew⟩
    · cases hstep
  · obtain ⟨hcalls, hnone⟩ := calls_of_short (s := s) hm
    rw [hcalls]
    refine ⟨⟨⟨0, 0, 0, 0, []⟩, .inl plain_nil, confined_nil⟩, fun s' hstep => ?_⟩
    rw [hnone] at hstep
    cases hstep

theorem leaves_of_request (hs : s.Attached) {t : MessageType} (ht : a.type = some t) (hattach : t ≠ .attach)
    (hm : headerSize ≤ a.message.length) (hserver : AsServer s.handler t a.body (a.calls s.handler) →
      OfRoot s.handler a.body (·.identity = .server)) {root : Root}
    (hroot : OfRoot s.handler a.body (· = root)) (hsettled : Settled root (a.calls s.handler)) :
    ∃ r, Leaves s.handler (fun new => ∃ item, s.handler.fids (leAt 0 4 a.body) = some item ∧ item.root = new)
      root r (a.calls s.handler) ∧ ∀ reply after,
        ((respond a.message a.response s.handler).run a.env []).1 = (.value reply, after) →
          (∀ x, r.1 ≠ .halted x) ∧ after = r.2.handler := by
  have hproper : OfRoot s.handler a.body Root.Proper := fun item hitem =>
    (hs _ item hitem).elim fun _ h => h.2.proper
  by_cases hown : Needed s.handler t a.body → CallsAsServer s.handler t a.body → root.identity = .server
  · have hensures := handleMessage_leaves (leAt 5 2 a.message) a.unwritten hattach hroot hproper hown
    rw [← handlerOf_eq ht] at hensures
    obtain ⟨r, hr, hafter⟩ := run_respond hm hensures
    exact ⟨r, hr hsettled, hafter⟩
  · -- only a directory that has no entries is left
    obtain ⟨hneeded, hcalls, hforeign⟩ : Needed s.handler t a.body ∧ CallsAsServer s.handler t a.body ∧
        root.identity ≠ .server := by
      simpa only [Classical.not_imp] using hown
    have hnot : ¬ AsServer s.handler t a.body (a.calls s.handler) := by
      intro has
      obtain ⟨item, hitem⟩ := fid_of_callsAsServer hcalls
      have hsame : item.root = root := hroot item hitem
      exact hforeign (hsame ▸ hserver has item hitem)
    obtain ⟨rfl, hempty⟩ : t = .wreaddir ∧ ∀ c ∈ a.calls s.handler, ¬ IsEntry c := by
      simpa only [AsServer, hneeded, hcalls, true_and, Classical.not_imp, not_exists, not_and] using hnot
    have hensures := handleReadDir_leaves (leAt 5 2 a.message) a.unwritten hroot hproper hcalls.1
    rw [← handlerOf_eq ht] at hensures
    obtain ⟨r, hr, hafter⟩ := run_respond hm hensures
    exact ⟨r, hr hempty hsettled, hafter⟩

theorem request_spec (hs : s.Attached) {t : MessageType} (ht : a.type = some t) (hattach : t ≠ .attach)
    (ha : s.Tame a) : s.InName a ∧ ∀ s', s.step a = some s' → s'.Attached := by
  have hname : s.InName a ↔ OfRoot s.handler a.body s.HasRoot ∧
      ∀ root, OfRoot s.handler a.body (· = root) → Confined root (a.calls s.handler) := by
    rw [InName, ht]
    cases t <;> first | rfl | exact absurd rfl hattach
  obtain ⟨hserver, hsettled⟩ : (AsServer s.handler t a.body (a.calls s.handler) →
      OfRoot s.handler a.body (·.identity = .server)) ∧
        ∀ root, OfRoot s.handler a.body (· = root) → Settled root (a.calls s.handler) := by
    rw [Tame, ht] at ha
    cases t <;> first | exact ha | exact absurd rfl hattach
  rw [hname]
  by_cases hm : headerSize ≤ a.message.length
  · have hleaves (root : Root) (hroot : OfRoot s.handler a.body (· = root)) :=
      leaves_of_request hs ht hattach hm hserver hroot (hsettled root hroot)
    refine ⟨⟨fun item hitem => hs _ item hitem, fun root hroot => ?_⟩, fun s' hstep => ?_⟩
    · obtain ⟨r, hr, -⟩ := hleaves root hroot
      exact hr.1
    · obtain ⟨root, hroot⟩ := exists_ofRoot s.handler a.body
      obtain ⟨r, ⟨-, hfids⟩, hafter⟩ := hleaves root hroot
      rw [step] at hstep
      split at hstep
      · next reply after hrun =>
        rw [if_neg fun heq => hattach (Option.some.inj (ht.symm.trans heq))] at hstep
        cases hstep
        obtain ⟨hhalted, rfl⟩ := hafter reply after hrun
        intro fid item hitem
        rcases hfids hhalted fid item hitem with ⟨old, hold, hsame⟩ | ⟨old, hold, hsame⟩
        · rw [← hsame]
          exact hs fid old hold
        · rw [← hsame]
          exact hs _ old hold
      · cases hstep
  · obtain ⟨hcalls, hnone⟩ := calls_of_short (s := s) hm
    rw [hcalls]
    refine ⟨⟨fun item hitem => hs _ item hitem, fun _ _ => confined_nil⟩, fun s' hstep => ?_⟩
    rw [hnone] at hstep
    cases hstep

theorem unknown_spec (hs : s.Attached) (ht : a.type = none) :
    s.InName a ∧ ∀ s', s.step a = some s' → s'.Attached := by
  rw [InName, ht]
  by_cases hm : headerSize ≤ a.message.length
  · have hhandler : handlerOf a.message = handleNotSupported := by
      rw [handlerOf, show messageType (leAt 4 1 a.message) = none from ht]
    have hensures : (handlerOf a.message ⟨s.handler, a.body, a.response⟩).Ensures
        fun r t => t = [] ∧ r.2.handler = s.handler := by
      rw [hhandler]
      exact ⟨rfl, rfl⟩
    obtain ⟨r, ⟨hcalls, hkept⟩, hafter⟩ := run_respond hm hensures
    rw [hcalls]
    refine ⟨⟨fun item hitem => hs _ item hitem, fun _ _ => confined_nil⟩, fun s' hstep => ?_⟩
    rw [step] at hstep
    split at hstep
    · next reply after hrun =>
      rw [if_neg fun heq => Option.some_ne_none _ (heq.symm.trans ht)] at hstep
      cases hstep
      obtain ⟨-, rfl⟩ := hafter reply after hrun
      intro fid item hitem
      rw [hkept] at hitem
      exact hs fid item hitem
    · cases hstep
  · obtain ⟨hcalls, hnone⟩ := calls_of_short (s := s) hm
    rw [hcalls]
    refine ⟨⟨fun item hitem => hs _ item hitem, fun _ _ => confined_nil⟩, fun s' hstep => ?_⟩
    rw [hnone] at hstep
    cases hstep

theorem arrival_spec (hs : s.Attached) (ha : s.Tame a) :
    s.InName a ∧ ∀ s', s.step a = some s' → s'.Attached := by
  cases ht : a.type with
  | none => exact unknown_spec hs ht
  | some t =>
    by_cases hattach : t = .attach
    · exact attach_spec hs (hattach ▸ ht) ha
    · exact request_spec hs ht hattach ha

end Step

/-- **Requests are made in the name of their client**: in every run of tame requests, the next one is, up to
its last call. -/
theorem inName_of_reaches {allowRenegotiate : Bool} {s : Clients}
    (h : Reaches step Tame (fresh allowRenegotiate) s) {a : Arrival} (ha : s.Tame a) : s.InName a := by
  have hs : s.Attached :=
    h.invariant (I := Attached) nofun fun s a s' hs ha hstep => (arrival_spec hs ha).2 s' hstep
  exact (arrival_spec hs ha).1

/-! ### A user of a system that works -/

/-- A system that works, whose users have the group 1000 and the groups of their own. -/
def hosting : (e : Syscall) → e.Answer
  | .getUserGroupId _ => (1000 : Nat)
  | .getgrouplist _ _ => some [27]
  | e => working e

theorem settled_hosting (root : Root) {α : Type} (p : Program Syscall Syscall.Answer α) :
    Settled root (p.run (fun _ e => hosting e) []).2 := by
  refine Action.given_of_environment (fun _ e => ⟨?_, ?_⟩) p
  · unfold Restored
    split <;> first | rfl | trivial
  · unfold Entered
    split <;> first | rfl | exact .inl rfl | trivial

theorem asRoot_hosting {α : Type} (p : Program Syscall Syscall.Answer α) :
    AsRoot (p.run (fun _ e => hosting e) []).2 := by
  have hall : Action.Given (fun e r => e = .geteuid → HEq r (0 : Nat))
      (p.run (fun _ e => hosting e) []).2 := by
    refine Action.given_of_environment (fun _ e he => ?_) p
    subst he
    rfl
  exact fun uid hmem => eq_of_heq (hall _ hmem rfl)

def arriving (t : MessageType) (body : Bytes) : Arrival where
  message := (received t body).message
  response := .ofSize staticBufferSize true headerSize_le_static
  unwritten := rfl
  env := fun _ e => hosting e

/-- `Tattach` of the fid `0` by the user 1000. -/
def arrivingAttach : Arrival :=
  arriving .attach (leBytes 4 0 ++ leBytes 4 (2 ^ 32 - 1) ++ leBytes 2 0 ++ leBytes 2 0 ++ leBytes 4 1000)

/-- `Tgetattr` of the fid `0`. -/
def arrivingGetAttr : Arrival := arriving .getattr (leBytes 4 0 ++ leBytes 8 0)

/-- `Tstatfs` of the fid `0`. -/
def arrivingStatFs : Arrival := arriving .statfs (leBytes 4 0)

theorem inName_getAttr : ∃ s, (fresh false).step arrivingAttach = some s ∧ s.InName arrivingGetAttr := by
  obtain ⟨s, hs⟩ : ∃ s, (fresh false).step arrivingAttach = some s := ⟨_, rfl⟩
  have hattach : (fresh false).Tame arrivingAttach :=
    ⟨by decide, asRoot_hosting _, fun root _ _ => settled_hosting root _⟩
  have hgetAttr : s.Tame arrivingGetAttr := ⟨fun has => has.2.1.elim, fun root _ => settled_hosting root _⟩
  exact ⟨s, hs, inName_of_reaches (Reaches.start.step hattach hs) hgetAttr⟩

/-- `Tstatfs` opens the file before it takes the identity of its user. -/
theorem statFs_as_server :
    ¬ ∀ s, Reaches step (fun _ _ => True) (fresh false) s → ∀ a, s.InName a := by
  intro h
  obtain ⟨s, hs, f, hfid, hroot, path, flags, r, r', t, hcalls⟩ : ∃ s,
      (fresh false).step arrivingAttach = some s ∧
      ∃ f, s.handler.fids 0 = some (.file f) ∧ f.root.identity = ⟨1000, 1000, [27]⟩ ∧
        ∃ path flags r r' t,
          arrivingStatFs.calls s.handler = ⟨.fdPath 3, r⟩ :: ⟨.openPath path flags, r'⟩ :: t :=
    ⟨_, rfl, _, rfl, rfl, _, _, _, _, _, rfl⟩
  obtain ⟨-, hconfined⟩ := h s (Reaches.start.step trivial hs) arrivingStatFs
  have hof : OfRoot s.handler arrivingStatFs.body (· = f.root) := by
    intro item hitem
    have hzero : leAt 0 4 arrivingStatFs.body = 0 := rfl
    rw [hzero, hfid] at hitem
    cases hitem
    rfl
  have hserver : Identity.server = f.root.identity := by
    obtain ⟨hmade, -⟩ := hconfined f.root hof
    rw [hcalls] at hmade
    obtain ⟨-, hopened, -⟩ := hmade
    exact hopened rfl
  rw [hroot] at hserver
  exact absurd hserver (by decide)

end Clients

end WslFreeBSD.Plan9
