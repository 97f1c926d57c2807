import WslFreeBSD.Plan9.HandlerRuns
import WslFreeBSD.Plan9.WOpen

/-!
# The terms of a request

What a message and the handler say of a request before it is handled, with the sizes of the buffer and of
the message: whether the message has what is read of it, whether a failure can be noticed, and whether the
response can be written behind its end. `spec_respond` is the contract of `ProcessMessage` for all messages.
-/

namespace WslFreeBSD.Plan9

open Lib

/-! ## Requests -/

/-- The request is refused before its body is read. -/
def Handler.Refuses (h : Handler) : MessageType → Prop
  | .version => h.negotiated ∧ h.allowRenegotiate = false
  | .access | .wreaddir | .wopen => h.use9P2000W = false
  | _ => False

/-- The body has the fields of its request, unless it is not read. -/
def Needed (h : Handler) (t : MessageType) (b : Bytes) : Prop :=
  h.Refuses t ∨ holds (requestFields t) b

def Enough (h : Handler) (t : MessageType) (b : Bytes) : Prop :=
  h.Refuses t ∨ holds (requestFields t) b ∧ (t = .wopen → wopenHolds h b)

/-- A request that fails changes nothing that a client can see, with a response of a size. -/
def Steady (h : Handler) (t : MessageType) (b : Bytes) (size : Nat) : Prop :=
  match t with
  | .version => h.negotiated = false → minimumRequestBufferSize ≤ leAt 0 4 b →
      stringAt (b.drop 4) = protocolVersionW ∨ stringAt (b.drop 4) = protocolVersionL → 21 ≤ size
  | .attach => h.fids (leAt 0 4 b) = none → 20 ≤ size
  | .lopen => ∀ f, h.fids (leAt 0 4 b) = some (.file f) → f.isOpen = false → 24 ≤ size
  | .lcreate => isName (stringAt (b.drop 4)) →
      ∀ f, h.fids (leAt 0 4 b) = some (.file f) → f.isOpen = false → 24 ≤ size
  | .xattrwalk => ∀ f, h.fids (leAt 0 4 b) = some (.file f) →
      h.fids (leAt 0 4 (b.drop 4)) = none → 15 ≤ size
  | .clunk => False
  | _ => True

/-- The reply is longer than the room that is made for it. -/
def Overruns (h : Handler) (t : MessageType) (b : Bytes) (size : Nat) : Prop :=
  match t with
  -- the room is without the identification of the client
  | .getlock => ∃ f, h.fids (leAt 0 4 b) = some (.file f) ∧ f.isOpen ∧
      min size h.negotiatedSize < 30 + (stringAt (b.drop 25)).length
  -- without room, the value of an attribute has the length that it would need
  | .read => ∃ x, h.fids (leAt 0 4 b) = some (.xattr x) ∧ x.access = .read ∧
      leAt 0 8 (b.drop 4) = 0 ∧ leAt 0 4 (b.drop 12) = 0
  | _ => False

/-- What is seen of a fid in a request: a directory that is read stands where it stands. -/
def seenBy (t : MessageType) (item : Fid) : Fid :=
  match t with
  | .readdir | .wreaddir => item.view
  | _ => item

theorem seenBy_root (t : MessageType) (item : Fid) : (seenBy t item).root = item.root := by
  cases t <;> first | rfl | exact item.root_view

def requestTerms (h : Handler) (tag : Nat) (t : MessageType) (b : Bytes) (size : Nat) : Terms where
  needed := Needed h t b
  enough := Enough h t b
  steady := Steady h t b size
  overrun := Needed h t b ∧ Overruns h t b size
  own := Needed h t b ∧ t = .flush ∧ leAt 0 2 b = tag
  source := fun root => t = .attach ∨ ∃ item, h.fids (leAt 0 4 b) = some item ∧ item.root = root
  see := seenBy t
  see_root := seenBy_root t

/-- The request calls with a path as the server. -/
def CallsAsServer (h : Handler) (t : MessageType) (b : Bytes) : Prop :=
  match t with
  | .statfs | .xattrwalk => ∃ f, h.fids (leAt 0 4 b) = some (.file f)
  | .xattrcreate => ∃ f, h.fids (leAt 0 4 b) = some (.file f) ∧ f.isOpen = false
  | .wreaddir => h.use9P2000W ∧ ∃ f, h.fids (leAt 0 4 b) = some (.file f) ∧ f.isOpen
  | .clunk => ∃ x, h.fids (leAt 0 4 b) = some (.xattr x) ∧ x.access = .write
  | _ => False

/-- The request starts a read or a write that ends in a completion. -/
def StartsAio (h : Handler) (t : MessageType) (b : Bytes) (w : MessageResponse) : Prop :=
  match t with
  | .read => Fits h w (getMessageSize .read + leAt 0 4 (b.drop 12)) ∧
      ∃ f fd, h.fids (leAt 0 4 b) = some (.file f) ∧ f.state = .file fd
  | .write => ∃ f fd, h.fids (leAt 0 4 b) = some (.file f) ∧ f.state = .file fd
  | _ => False

/-- What a setting allows is enough for a request. -/
structure Setting.Suits (S : Setting) (h : Handler) (t : MessageType) (b : Bytes)
    (w : MessageResponse) : Prop where
  admits : OfRoot h b S.Admits
  opens : Needed h t b → CallsAsServer h t b → S.opens .server
  async : Needed h t b → StartsAio h t b w → S.async
  /-- the root of an attach is not known before -/
  unwatched : t = .attach → S.watched = none

theorem Setting.free_suits (h : Handler) (t : MessageType) (b : Bytes) (w : MessageResponse) :
    Setting.free.Suits h t b w :=
  ⟨fun _ _ => nofun, fun _ _ => nofun, fun _ _ => trivial, fun _ => rfl⟩

section Requests

variable {S : Setting} {h : Handler} {tag : Nat} {t : MessageType} {b : Bytes} {w : MessageResponse}
  {size : Nat}

theorem reads_requestTerms (hrefuses : ¬ h.Refuses t) :
    (requestTerms h tag t b size).Reads (requestFields t) b :=
  ⟨.inr, fun he => (he.resolve_left hrefuses).1⟩

theorem source_requestTerms : OfRoot h b (requestTerms h tag t b size).source :=
  fun item hitem => .inr ⟨item, hitem, rfl⟩

theorem keeps_handleMessage_when {P : Prop} (hw : w.written = [])
    (hP : P → Steady h t b w.size ∧ 11 ≤ w.size) (hS : S.Suits h t b w) :
    Keeps S { requestTerms h tag t b w.size with steady := P } h b w t (handleMessage tag t) := by
  have hsteady (hp : P) : Steady h t b w.size := (hP hp).1
  have hreads (hrefuses : ¬ h.Refuses t) :
      ({ requestTerms h tag t b w.size with steady := P } : Terms).Reads (requestFields t) b :=
    (reads_requestTerms hrefuses : (requestTerms h tag t b w.size).Reads (requestFields t) b)
  have hsource : OfRoot h b (requestTerms h tag t b w.size).source := source_requestTerms
  have hflag {flag : Bool} (hrefuses : h.Refuses t → flag = false) (hflag : flag) :
      ({ requestTerms h tag t b w.size with steady := P } : Terms).Reads (requestFields t) b :=
    hreads fun hno => Bool.false_ne_true ((hrefuses hno).symm.trans hflag)
  obtain ⟨hroot, hopens, hasync, hunwatched⟩ := hS
  cases t with
  | statfs => exact keeps_statFs hw hroot (fun hn f hf => hopens hn ⟨f, hf⟩) (hreads id)
  | lopen => exact keeps_lopen hw hroot (hreads id) hsteady
  | lcreate => exact keeps_lcreate hw hroot (hreads id) hsteady
  | symlink => exact keeps_symLink hw hroot (hreads id)
  | mknod => exact keeps_mkNod hw hroot (hreads id)
  | rename => exact keeps_rename hw hroot (hreads id)
  | readlink => exact keeps_readLink hw hroot (hreads id)
  | getattr => exact keeps_getAttr hw hroot (hreads id)
  | setattr => exact keeps_setAttr hw hroot (hreads id)
  | xattrwalk =>
    exact keeps_xattrWalk hw hroot hsource (fun hn f hf => hopens hn ⟨f, hf⟩)
      (hreads id) hsteady
  | xattrcreate =>
    exact keeps_xattrCreate hw (fun hn f hf hopen => hopens hn ⟨f, hf, hopen⟩) (hreads id)
  | readdir =>
    exact keeps_readDir hw false (fun _ _ => congrArg Fid.file)
      (fun _ _ _ _ hattr => nomatch hattr) (fun hattr => nomatch hattr) fun _ => hreads id
  | wreaddir =>
    exact keeps_readDir hw true (fun _ _ => congrArg Fid.file)
      (fun hn f hf hopen _ huse => hopens hn ⟨huse, f, hf, hopen⟩) (fun _ hno => .inl hno)
      fun huse => hflag id (huse rfl)
  | fsync => exact keeps_fsync hw (hreads id)
  | lock => exact keeps_lock hw (hreads id)
  | getlock =>
    exact keeps_getLock hw (hreads id) fun hn f hf hopen hlt => ⟨hn, f, hf, hopen, hlt⟩
  | link => exact keeps_link hw hroot (hreads id)
  | mkdir => exact keeps_mkDir hw hroot (hreads id)
  | renameat => exact keeps_renameAt hw hroot (hreads id)
  | unlinkat => exact keeps_unlinkAt hw hroot (hreads id)
  | version =>
    exact keeps_version hw (fun hn hno => .inl ⟨hn, hno⟩) (fun hallow => hreads fun hno =>
      Bool.false_ne_true (hno.2.symm.trans (hallow hno.1))) hsteady
  | auth => exact keeps_notSupported .auth (.inr rfl)
  | attach =>
    exact keeps_attach hw (hunwatched rfl) (fun _ => .inl rfl) (hreads id) hsteady
  | flush => exact keeps_flush hw (hreads id) fun hn htag => ⟨hn, rfl, htag⟩
  | walk => exact keeps_walk hw hroot hsource (hreads id)
  | read =>
    exact keeps_read hw hroot (fun hn hfits f fd hf hfd => hasync hn ⟨hfits, f, fd, hf, hfd⟩)
      (hreads id) fun hn x hx haccess hoffset hcount => ⟨hn, x, hx, haccess, hoffset, hcount⟩
  | write =>
    exact keeps_write hw (fun hp => (hP hp).2) (fun hn f fd hf hfd => hasync hn ⟨f, fd, hf, hfd⟩) (hreads id)
  | clunk =>
    exact keeps_clunk hw hsteady (fun hn x hx haccess => hopens hn ⟨x, hx, haccess⟩) (hreads id)
  | remove => exact keeps_remove hw hroot (hreads id)
  | access => exact keeps_access hw hroot .inl fun huse => hflag id huse
  | wopen =>
    exact keeps_wopen hroot hsource hw .inl (fun huse => (hflag id huse).1) fun huse he =>
      (he.resolve_left fun hno => Bool.false_ne_true (hno.symm.trans huse)).2 rfl

theorem keeps_handleMessage (hw : w.written = []) (hsize : 11 ≤ w.size) (hS : S.Suits h t b w) :
    Keeps S (requestTerms h tag t b w.size) h b w t (handleMessage tag t) :=
  keeps_handleMessage_when hw (fun hsteady => ⟨hsteady, hsize⟩) hS

end Requests

/-! ## Messages -/

/-- The terms of a message; one whose request is not known is refused. -/
def messageTerms (h : Handler) (m : Bytes) (size : Nat) : Terms :=
  match messageType (leAt 4 1 m) with
  | some t => requestTerms h (leAt 5 2 m) t (m.drop headerSize) size
  | none =>
    { needed := True, enough := True, steady := True, overrun := False, own := False
      source := fun _ => False, see := id, see_root := fun _ => rfl }

/-- What a setting allows is enough for a message. -/
def Setting.SuitsMessage (S : Setting) (h : Handler) (m : Bytes) (w : MessageResponse) : Prop :=
  ∀ t, messageType (leAt 4 1 m) = some t → S.Suits h t (m.drop headerSize) w

/-- The field `ecode` of an error. -/
def ecodeOf (e : Int) : Nat := ((-e) % 2 ^ 32).toNat

/-- The reply to a message, and the handler behind it. -/
def Replied (S : Setting) (T : Terms) (h : Handler) (m : Bytes) : Reply → Handler → Prop
  | .answer code tag body, h' => code = leAt 4 1 m ∧ tag = leAt 5 2 m ∧
      ∃ t, messageType code = some t ∧ T.Done h t () ⟨h', [], body⟩
  | .rlerror ecode tag body, h' => tag = leAt 5 2 m ∧ body.written = leBytes 4 ecode ∧
      ∃ e, ecode = ecodeOf e ∧ T.Failed S h e ⟨h', [], body⟩

section Messages

variable {S : Setting} {h : Handler} {m : Bytes} {w : MessageResponse}

theorem at_handled (hw : w.written = []) (hsize : 11 ≤ w.size) (hS : S.SuitsMessage h m w) :
    At S (messageTerms h m w.size) ⟨h, m.drop headerSize, w⟩
      (match messageType (leAt 4 1 m) with
        | some t => handleMessage (leAt 5 2 m) t
        | none => handleNotSupported)
      (fun u c => ∃ t, messageType (leAt 4 1 m) = some t ∧ (messageTerms h m w.size).Done h t u c)
      ((messageTerms h m w.size).Failed S h) := by
  cases ht : messageType (leAt 4 1 m) with
  | none =>
    have hneeded : (messageTerms h m w.size).needed := by
      rw [messageTerms, ht]
      trivial
    exact at_throw hneeded (S.own _ (by decide)) rfl
  | some t =>
    have hterms : messageTerms h m w.size = requestTerms h (leAt 5 2 m) t (m.drop headerSize) w.size := by
      rw [messageTerms, ht]
    rw [hterms]
    exact (keeps_handleMessage hw hsize (hS t ht)).post fun _ _ hc => ⟨t, rfl, hc⟩

theorem next_ecode (hw : w.written = []) (hsize : 11 ≤ w.size) (ecode : Nat) :
    ∃ w', w.next (leBytes 4 ecode) = some w' ∧ w'.written = leBytes 4 ecode := by
  have hfits : headerSize + (w.written ++ leBytes 4 ecode).length ≤ w.size := by
    rw [hw, List.nil_append, length_leBytes]
    exact hsize
  refine ⟨{ w with written := w.written ++ leBytes 4 ecode, fits := hfits }, dif_pos hfits, ?_⟩
  change w.written ++ leBytes 4 ecode = leBytes 4 ecode
  rw [hw, List.nil_append]

theorem spec_processMessage (hm : headerSize ≤ m.length) (hw : w.written = []) (hsize : 11 ≤ w.size)
    (hS : S.SuitsMessage h m w) :
    At S (messageTerms h m w.size) ⟨h, m, w⟩ processMessage
      (fun r c => Replied S (messageTerms h m w.size) h m r c.handler) (fun _ _ => False) := by
  refine (at_uint (n := 4) fun hlt => ?_).bind ?_
  · exact absurd hlt (Nat.not_lt.mpr (le_trans (by decide) hm))
  rintro _ _ ⟨-, rfl, rfl⟩
  refine (at_uint (n := 1) fun hlt => ?_).bind ?_
  · rw [List.length_drop, headerSize] at *
    omega
  rintro _ _ ⟨-, rfl, rfl⟩
  refine (at_uint (n := 2) fun hlt => ?_).bind ?_
  · rw [List.length_drop, List.length_drop, headerSize] at *
    omega
  rintro _ _ ⟨-, rfl, rfl⟩
  simp only [List.drop_drop, leAt_drop, Nat.reduceAdd]
  refine .get_then ?_
  have hhandled := at_handled hw hsize hS
  refine At.bind (A := fun r c =>
    (∀ u, r = .ok u → ∃ t, messageType (leAt 4 1 m) = some t ∧ (messageTerms h m w.size).Done h t u c) ∧
      ∀ e, r = .error e → (messageTerms h m w.size).Failed S h e c) (.attempt ?_) ?_
  · refine hhandled.mono (fun _ h => h) ?_ ?_ fun _ _ h => h
    · refine fun u c hc => ⟨fun _ hu => Except.ok.inj hu ▸ hc, ?_⟩
      rintro _ ⟨⟩
    · refine fun e c hc => ⟨?_, fun _ he => Except.error.inj he ▸ hc⟩
      rintro _ ⟨⟩
  rintro (e | u) ⟨h', b, w'⟩ ⟨hdone, hfailed⟩
  · obtain ⟨w'', hnext, hwritten⟩ := next_ecode hw hsize (ecodeOf e)
    refine .modify_then (At.bind (A := fun _ c => c = ⟨h', b, w''⟩) (.get_then ?_) ?_)
    · rw [ecodeOf] at hnext
      dsimp only
      rw [hnext]
      exact Action.spec_modify fun c hc => hc ▸ rfl
    · rintro _ _ rfl
      refine .get_then (Action.spec_pure ?_)
      rintro _ rfl
      exact ⟨rfl, hwritten, e, rfl, hfailed e rfl⟩
  · refine .get_then (Action.spec_pure ?_)
    rintro _ rfl
    exact ⟨rfl, rfl, hdone u rfl⟩

theorem processMessage_short (hm : m.length < headerSize) :
    ∃ b, processMessage ⟨h, m, w⟩ = pure (.halted .readPast, ⟨h, b, w⟩) := by
  by_cases h4 : 4 ≤ m.length
  · rw [processMessage, Action.bind_of_value (uint_run h4)]
    by_cases h1 : 1 ≤ (m.drop 4).length
    · rw [Action.bind_of_value (uint_run h1)]
      have h2 : ((m.drop 4).drop 1).length < 2 := by
        rw [List.length_drop, List.length_drop]
        rw [headerSize] at hm
        omega
      exact ⟨_, Action.bind_of_halted (uint_short h2)⟩
    · exact ⟨_, Action.bind_of_halted (uint_short (Nat.lt_of_not_le h1))⟩
  · exact ⟨_, Action.bind_of_halted (uint_short (Nat.lt_of_not_le h4))⟩

theorem respond_short (hm : m.length < headerSize) :
    respond m w h = pure (.halted .readPast, h) := by
  obtain ⟨b, hb⟩ := processMessage_short (h := h) (w := w) hm
  change processMessage ⟨h, m, w⟩ >>= _ = _
  rw [hb]
  rfl

/-- The contract of `ProcessMessage`, on the state of the handler. -/
theorem spec_respond (hm : headerSize ≤ m.length) (hw : w.written = []) (hsize : 11 ≤ w.size)
    (hS : S.SuitsMessage h m w) :
    Action.Spec (S.interface .server) (fun h' => h' = h) (respond m w)
      (Replied S (messageTerms h m w.size) h m) (fun _ _ => False)
      fun x h' => (messageTerms h m w.size).Stuck S x ⟨h', [], w⟩ := by
  refine .zoom ?_
  rintro _ rfl
  exact (spec_processMessage hm hw hsize hS).mono (fun _ hc => hc) (fun _ _ hc => hc) (fun _ _ hc => hc)
    fun x _ hx => by cases x <;> exact hx

end Messages

end WslFreeBSD.Plan9
