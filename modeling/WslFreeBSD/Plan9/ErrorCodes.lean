import WslFreeBSD.Plan9.SocketMessages

/-!
# The errors of replies

The field `ecode` of an `Rlerror` should be the error number of what went wrong. Errors are `-errno`
inside the server and are negated when they are written. The completion of an asynchronous read or write
reports `errno` itself, and so does a write that is not started.
-/

namespace WslFreeBSD.Plan9

open Lib

def Syscall.errno (e : Syscall) (r : e.Answer) : Option Nat := (e.thrown r).map Int.natAbs

/-- The error number of a call that failed, or one that the server has for itself. -/
def Reports (t : Program.Trace Syscall Syscall.Answer) (ecode : Nat) : Prop :=
  (∃ c ∈ t, c.1.errno c.2 = some ecode) ∨ ∃ e ∈ ownErrors, ecode = e.natAbs

/-- The failure of an asynchronous read or write that is reported as `errno`. -/
def Misreported : (e : Syscall) → e.Answer → Prop
  | .aioRead _ _ _, .failed _ => True
  | .aioWrite _ _ _, .refused _ | .aioWrite _ _ _, .failed _ => True
  | _, _ => False

/-- A message that starts an asynchronous read or write. -/
inductive Starts (h : Handler) (m : Bytes) (w : MessageResponse) : Syscall → Prop where
  | read {f : File} {fd : Nat} (ht : messageType (leAt 4 1 m) = some .read)
    (hfields : holds (requestFields .read) (m.drop headerSize))
    (hf : h.fids (leAt 0 4 (m.drop headerSize)) = some (.file f)) (hfd : f.state = .file fd)
    (hfits : Fits h w (getMessageSize .read + leAt 0 4 ((m.drop headerSize).drop 12))) :
    Starts h m w (.aioRead fd (leAt 0 8 ((m.drop headerSize).drop 4))
      (leAt 0 4 ((m.drop headerSize).drop 12)))
  | write {f : File} {fd : Nat} (ht : messageType (leAt 4 1 m) = some .write)
    (hfields : holds (requestFields .write) (m.drop headerSize))
    (hf : h.fids (leAt 0 4 (m.drop headerSize)) = some (.file f)) (hfd : f.state = .file fd) :
    Starts h m w (.aioWrite fd (leAt 0 8 ((m.drop headerSize).drop 4))
      (((m.drop headerSize).drop 16).take (leAt 0 4 ((m.drop headerSize).drop 12))))

/-! ## What a reply reports -/

theorem failure_negative {α : Type} {r : Except Errno α} {x : Int} (h : failure r = some x) :
    ∃ e : Errno, x = e.code := by
  cases r with
  | ok a => cases h
  | error e =>
    cases h
    exact ⟨e, rfl⟩

/-- A failure is `-errno` unless it is misreported. -/
theorem thrown_negative {e : Syscall} {r : e.Answer} (hr : ¬ Misreported e r) {x : Int}
    (hx : e.thrown r = some x) : ∃ n : Errno, x = n.code := by
  cases e
  case aioRead fd offset size =>
    cases r with
    | refused e =>
      cases hx
      exact ⟨e, rfl⟩
    | failed e => exact absurd trivial hr
    | done s => cases hx
  case aioWrite fd offset data =>
    cases r with
    | refused e => exact absurd trivial hr
    | failed e => exact absurd trivial hr
    | done n => cases hx
  all_goals first | exact failure_negative hx | cases hx

theorem ownErrors_range {e : Int} (he : e ∈ ownErrors) : -4096 < e ∧ e < 0 := by
  revert e
  decide

/-- The errors behind some calls: `-errno` of what is reported. -/
def Reported (t : Program.Trace Syscall Syscall.Answer) (e : Int) : Prop :=
  -4096 < e ∧ e < 0 ∧ Reports t e.natAbs

/-- The setting of a request whose calls are known. -/
def Setting.reporting (t : Program.Trace Syscall Syscall.Answer) : Setting where
  errors := Reported t
  own := fun e he => ⟨(ownErrors_range he).1, (ownErrors_range he).2, .inr ⟨e, he, rfl⟩⟩
  restored := False
  async := True
  watched := none

theorem Setting.reporting_suits (t : Program.Trace Syscall Syscall.Answer) (h : Handler) (m : Bytes)
    (w : MessageResponse) : (Setting.reporting t).SuitsMessage h m w :=
  fun _ _ => ⟨fun _ _ => nofun, fun _ _ => nofun, fun _ _ => trivial, fun _ => rfl⟩

theorem reporting_rely {t : Program.Trace Syscall Syscall.Answer} (ht : ∀ c ∈ t, ¬ Misreported c.1 c.2) :
    Action.Given (Setting.reporting t).rely t := by
  refine fun c hc => ⟨fun x hx => ?_, False.elim, nofun⟩
  obtain ⟨n, rfl⟩ := thrown_negative (ht c hc) hx
  have hn := n.property
  refine ⟨?_, ?_, .inl ⟨c, hc, ?_⟩⟩
  · rw [Errno.code]
    omega
  · rw [Errno.code]
    omega
  · rw [Syscall.errno, hx]
    rfl

theorem ecodeOf_negative {e : Int} (hlt : -4096 < e) (hneg : e < 0) : ecodeOf e = e.natAbs := by
  rw [ecodeOf, Int.emod_eq_of_lt (by omega) (by omega)]
  omega

theorem kind_of_misreported {e : Syscall} {r : e.Answer} (hr : Misreported e r) : e.kind = .aio := by
  cases e
  case aioRead => rfl
  case aioWrite => rfl
  all_goals exact hr.elim

variable {h : Handler} {m b : Bytes} {w : MessageResponse} {env : Program.Environment Syscall Syscall.Answer}

/-! ## Requests that start a read or a write -/

theorem silent_ensureSize (t : MessageType) (extra : Nat) (c : Context) :
    Action.Silent (ensureSize t extra) c := by
  change Action.Silent (if c.handler.negotiatedSize < getMessageSize t + extra then Action.throw einval
    else if c.response.size < getMessageSize t + extra then
      if ¬ c.response.allowResize then Action.throw einval else Action.modify _
    else pure () : Op Context Unit) c
  split
  · exact ⟨_, rfl⟩
  · split
    · split <;> exact ⟨_, rfl⟩
    · exact ⟨_, rfl⟩

theorem silent_write (data : Bytes) (c : Context) : Action.Silent (SpanWriter.write data) c := by
  by_cases hfits : headerSize + (c.response.written ++ data).length ≤ c.response.size
  · exact ⟨_, write_run hfits⟩
  · exact ⟨_, write_past hfits⟩

theorem ensureFits_run {t : MessageType} {extra : Nat} (hw : w.written = [])
    (hfits : Fits h w (getMessageSize t + extra)) : ∃ w', ensureSize t extra ⟨h, b, w⟩ =
      pure (.value (), ⟨h, b, w'⟩) ∧ w'.written = [] ∧ getMessageSize t + extra ≤ w'.size := by
  by_cases hsize : getMessageSize t + extra ≤ w.size
  · exact ⟨w, ensureSize_run hfits.1 hsize, hw, hsize⟩
  · refine ⟨.ofSize _ w.allowResize (headerSize_le t extra), ?_, rfl, le_rfl⟩
    change (if h.negotiatedSize < getMessageSize t + extra then Action.throw einval
      else if w.size < getMessageSize t + extra then
        if ¬ w.allowResize then Action.throw einval else Action.modify _
      else pure () : Op Context Unit) ⟨h, b, w⟩ = _
    rw [if_neg (Nat.not_lt.mpr hfits.1), if_pos (Nat.lt_of_not_le hsize),
      if_neg (not_not.mpr (hfits.2.resolve_left hsize))]
    rfl

theorem peek_run {count : Nat} (hroom : count ≤ w.remaining) :
    SpanWriter.peek count ⟨h, b, w⟩ = pure (.value (), ⟨h, b, w⟩) := by
  change (if w.remaining < count then Action.halt .writePast else pure () : Op Context Unit) ⟨h, b, w⟩ = _
  rw [if_neg (Nat.not_lt.mpr hroom)]
  rfl

/-- What a read comes to; the error of one that reaches the end of the file is none. -/
def readOutcome {size : Nat} : AioResult {s : Bytes // s.length ≤ size} → Outcome Int Halt Bytes
  | .refused e => if e.code = eoverflow then .value [] else .error e.code
  | .failed e => .error e.val
  | .done s => .value s.val

def writeOutcome {data : Bytes} : AioResult {n : Nat // n ≤ data.length} → Outcome Int Halt Nat
  | .refused e | .failed e => .error e.val
  | .done n => .value n.val

theorem read_call {σ : Type} {f : File} {fd offset size : Nat} (hfd : f.state = .file fd) (s : σ) :
    (f.read offset size).embed (η := Halt) s =
      .call (.aioRead fd offset size) fun r => pure (readOutcome r, s) := by
  rw [File.read, hfd]
  refine congrArg (Program.call _) (funext fun r => ?_)
  change AioResult {s : Bytes // s.length ≤ size} at r
  cases r with
  | refused e =>
    change (if e.code = eoverflow then (pure [] : Calls Bytes) else Action.throw e.code) () >>= _ = _
    by_cases he : e.code = eoverflow
    · rw [readOutcome, if_pos he, if_pos he]
      rfl
    · rw [readOutcome, if_neg he, if_neg he]
      rfl
  | failed e => rfl
  | done s => rfl

theorem write_call {σ : Type} {f : File} {fd offset : Nat} {data : Bytes} (hfd : f.state = .file fd) (s : σ) :
    (f.write offset data).embed (η := Halt) s =
      .call (.aioWrite fd offset data) fun r => pure (writeOutcome r, s) := by
  rw [File.write, hfd]
  refine congrArg (Program.call _) (funext fun r => ?_)
  change AioResult {n : Nat // n ≤ data.length} at r
  cases r <;> rfl

/-- The first step of an action is a call, which has an error for its outcome or ends it without another
call. -/
def Asks {σ α β : Type} {e : Syscall} (outcome : e.Answer → Outcome Int Halt β) (m : Op σ α) (s : σ) : Prop :=
  ∃ k, m s = .call e k ∧ ∀ r, (∃ res, k r = pure res) ∧
    ∀ x, outcome r = .error x → ∃ s', k r = pure (.error x, s')

theorem asks_bind {σ α β : Type} {e : Syscall} {outcome : e.Answer → Outcome Int Halt β} {m : Op σ β}
    {f : β → Op σ α} {s s' : σ} (hm : m s = .call e fun r => pure (outcome r, s'))
    (hf : ∀ a s', Action.Silent (f a) s') : Asks outcome (m >>= f) s := by
  refine ⟨_, Action.bind_of_call hm, fun r => ⟨Action.silent_andThen hf _, fun x hx => ⟨s', ?_⟩⟩⟩
  rw [hx]
  rfl

theorem asks_handleRead {f : File} {fd : Nat} (hw : w.written = [])
    (hfields : holds (requestFields .read) b) (hf : h.fids (leAt 0 4 b) = some (.file f))
    (hfd : f.state = .file fd) (hfits : Fits h w (getMessageSize .read + leAt 0 4 (b.drop 12))) :
    Asks (e := .aioRead fd (leAt 0 8 (b.drop 4)) (leAt 0 4 (b.drop 12))) readOutcome handleRead ⟨h, b, w⟩ := by
  have hoffset := (holds_int.mp hfields).2
  have hcount := (holds_int.mp hoffset).2
  obtain ⟨w', hensure, hw', hsize⟩ := ensureFits_run (b := b.drop 16) hw hfits
  have hroom : 4 + leAt 0 4 (b.drop 12) ≤ w'.remaining := by
    rw [MessageResponse.remaining, hw', List.length_nil]
    simp only [getMessageSize] at hsize
    omega
  have hreply (data : Bytes) (c : Context) : Action.Silent (do
      SpanWriter.uint 4 data.length
      SpanWriter.write data : Op Context Unit) c :=
    (silent_write _ c).bind fun _ c' => silent_write data c'
  rw [Asks, handleRead, uint_then_run hfields, uint_then_run hoffset, uint_then_run hcount]
  simp only [List.drop_drop, Nat.reduceAdd]
  rw [Action.bind_of_value (lookupFid_run hf), Action.bind_of_value hensure,
    Action.bind_of_value (peek_run hroom)]
  exact asks_bind (read_call hfd _) hreply

theorem onFid_write_call {f : File} {fd fid offset : Nat} {data : Bytes} (hfd : f.state = .file fd) :
    onFid fid (.file f) (Fid.write offset data) ⟨h, b, w⟩ = .call (.aioWrite fd offset data) fun r =>
      pure (writeOutcome r, ⟨h.setFid fid (some (.file f)), b, w⟩) := by
  change (f.write offset data).embed (Fid.file f) >>= _ = _
  rw [write_call hfd]
  rfl

theorem asks_handleWrite {f : File} {fd : Nat} (hfields : holds (requestFields .write) b)
    (hf : h.fids (leAt 0 4 b) = some (.file f)) (hfd : f.state = .file fd) :
    Asks (e := .aioWrite fd (leAt 0 8 (b.drop 4)) ((b.drop 16).take (leAt 0 4 (b.drop 12)))) writeOutcome
      handleWrite ⟨h, b, w⟩ := by
  have hoffset := (holds_int.mp hfields).2
  have hdata := (holds_int.mp hoffset).2
  rw [holds, Bool.and_eq_true, Bool.and_eq_true, decide_eq_true_eq, decide_eq_true_eq] at hdata
  obtain ⟨⟨hcount, hlength⟩, -⟩ := hdata
  simp only [List.drop_drop, Nat.reduceAdd] at hcount hlength
  have hread : leAt 0 4 (b.drop 12) ≤ (b.drop 16).length := by
    rw [List.length_drop] at hlength ⊢
    omega
  have hreply (n : Nat) (c : Context) : Action.Silent (do
      ensureSize .write 0
      SpanWriter.uint 4 n : Op Context Unit) c :=
    (silent_ensureSize .write 0 c).bind fun _ c' => silent_write _ c'
  rw [Asks, handleWrite, uint_then_run hfields, uint_then_run hoffset]
  simp only [List.drop_drop, Nat.reduceAdd]
  rw [Action.bind_of_value (uint_run hcount)]
  simp only [List.drop_drop, Nat.reduceAdd]
  rw [Action.bind_of_value (read_run hread), Action.bind_of_value (lookupFid_run hf)]
  exact asks_bind (onFid_write_call hfd) hreply

theorem silent_finishMessage (r : Except Int Unit) (c : Context) : Action.Silent (finishMessage m w r) c := by
  cases r with
  | ok u => exact ⟨_, rfl⟩
  | error x => exact Action.Silent.bind ⟨_, rfl⟩ fun _ c => (silent_write _ c).bind fun _ _ => ⟨_, rfl⟩

theorem finishMessage_error (hw : w.written = []) (hsize : 11 ≤ w.size) (x : Int) (c : Context) :
    ∃ body, finishMessage m w (.error x) c = pure (.value (.rlerror (ecodeOf x) (leAt 5 2 m) body),
      { c with response := body }) ∧ body.written = leBytes 4 (ecodeOf x) := by
  have hfits : headerSize + (w.written ++ leBytes 4 (ecodeOf x)).length ≤ w.size := by
    rw [hw, List.nil_append, length_leBytes]
    exact hsize
  have hwrite := write_run (h := c.handler) (b := c.message) hfits
  refine ⟨{ w with written := w.written ++ leBytes 4 (ecodeOf x), fits := hfits }, ?_, ?_⟩
  · exact (Action.bind_of_value rfl).trans (Action.bind_of_value hwrite)
  · change w.written ++ leBytes 4 (ecodeOf x) = _
    rw [hw, List.nil_append]

theorem respond_asks {β : Type} {e : Syscall} {outcome : e.Answer → Outcome Int Halt β} {t : MessageType}
    (hm : headerSize ≤ m.length) (ht : messageType (leAt 4 1 m) = some t) (hw : w.written = [])
    (hsize : 11 ≤ w.size)
    (hasks : Asks outcome (handleMessage (leAt 5 2 m) t) ⟨h, m.drop headerSize, w⟩) :
    ∃ k, respond m w h = .call e k ∧ ∀ r, (∃ res, k r = pure res) ∧ ∀ x, outcome r = .error x →
      ∃ body after, k r = pure (.value (.rlerror (ecodeOf x) (leAt 5 2 m) body), after) ∧
        body.written = leBytes 4 (ecodeOf x) := by
  obtain ⟨k, hk, hr⟩ := hasks
  refine ⟨?k, ?_, fun r => ?_⟩
  case refine_1 =>
    change processMessage ⟨h, m, w⟩ >>= _ = _
    rw [processMessage_run hm, handlerOf_eq ht]
    change ((handleMessage (leAt 5 2 m) t ⟨h, m.drop headerSize, w⟩ >>= _) >>= _) >>= _ = _
    rw [hk]
    exact rfl
  obtain ⟨⟨⟨o, c⟩, hres⟩, herror⟩ := hr r
  beta_reduce
  constructor
  · rw [hres]
    cases o with
    | value u =>
      obtain ⟨res, hfinish⟩ := silent_finishMessage (m := m) (w := w) (.ok u) c
      refine ⟨(res.1, res.2.handler), ?_⟩
      change finishMessage m w (.ok u) c >>= _ = _
      rw [hfinish]
      rfl
    | error x =>
      obtain ⟨res, hfinish⟩ := silent_finishMessage (m := m) (w := w) (.error x) c
      refine ⟨(res.1, res.2.handler), ?_⟩
      change finishMessage m w (.error x) c >>= _ = _
      rw [hfinish]
      rfl
    | halted x => exact ⟨(.halted x, c.handler), rfl⟩
  · intro x hx
    obtain ⟨c, hc⟩ := herror x hx
    obtain ⟨body, hbody, hwritten⟩ := finishMessage_error (m := m) hw hsize x c
    refine ⟨body, c.handler, ?_, hwritten⟩
    rw [hc]
    change finishMessage m w (.error x) c >>= _ = _
    rw [hbody]
    rfl

theorem Starts.long {e : Syscall} (hstarts : Starts h m w e) : headerSize ≤ m.length := by
  by_contra hlt
  have hempty : m.drop headerSize = [] := List.drop_eq_nil_of_le (by omega)
  cases hstarts with
  | read ht hfields hf hfd hfits =>
    rw [hempty] at hfields
    cases hfields
  | write ht hfields hf hfd =>
    rw [hempty] at hfields
    cases hfields

theorem Starts.run {e : Syscall} (hstarts : Starts h m w e) (hw : w.written = []) (hsize : 11 ≤ w.size)
    (env : Program.Environment Syscall Syscall.Answer) :
    ((respond m w h).run env []).2 = [⟨e, env [] e⟩] ∧ (Misreported e (env [] e) →
      ∃ n : Errno, ∃ tag body after, ((respond m w h).run env []).1 =
        (.value (.rlerror (ecodeOf n.val) tag body), after) ∧ body.written = leBytes 4 (ecodeOf n.val)) := by
  have hm := hstarts.long
  cases hstarts with
  | read ht hfields hf hfd hfits =>
    obtain ⟨k, hk, hr⟩ := respond_asks hm ht hw hsize (asks_handleRead hw hfields hf hfd hfits)
    rw [hk, Program.run]
    obtain ⟨⟨res, hres⟩, herror⟩ := hr (env [] (.aioRead _ _ _))
    constructor
    · rw [hres]
      rfl
    · intro hmisreported
      generalize env [] (.aioRead _ _ _) = r at hmisreported herror ⊢
      cases r with
      | refused n => exact hmisreported.elim
      | done s => exact hmisreported.elim
      | failed n =>
        obtain ⟨body, after, hbody, hwritten⟩ := herror n.val rfl
        exact ⟨n, _, body, after, by rw [hbody]; rfl, hwritten⟩
  | write ht hfields hf hfd =>
    obtain ⟨k, hk, hr⟩ := respond_asks hm ht hw hsize (asks_handleWrite hfields hf hfd)
    rw [hk, Program.run]
    obtain ⟨⟨res, hres⟩, herror⟩ := hr (env [] (.aioWrite _ _ _))
    constructor
    · rw [hres]
      rfl
    · intro hmisreported
      generalize env [] (.aioWrite _ _ _) = r at hmisreported herror ⊢
      cases r with
      | done n => exact hmisreported.elim
      | refused n =>
        obtain ⟨body, after, hbody, hwritten⟩ := herror n.val rfl
        exact ⟨n, _, body, after, by rw [hbody]; rfl, hwritten⟩
      | failed n =>
        obtain ⟨body, after, hbody, hwritten⟩ := herror n.val rfl
        exact ⟨n, _, body, after, by rw [hbody]; rfl, hwritten⟩

theorem run_without_aio (hm : headerSize ≤ m.length) (hw : w.written = []) (hsize : 11 ≤ w.size)
    (hno : ∀ e, ¬ Starts h m w e) : ∀ c ∈ ((respond m w h).run env []).2, c.1.kind ≠ .aio := by
  let S : Setting :=
    { errors := fun _ => True, own := fun _ _ => trivial, restored := False, async := False, watched := none }
  have hS : S.SuitsMessage h m w := by
    intro t ht
    refine ⟨fun _ _ => nofun, fun _ _ => nofun, fun hneeded hstarts => ?_, fun _ => rfl⟩
    cases t
    case read =>
      obtain ⟨hfits, f, fd, hf, hfd⟩ := hstarts
      exact hno _ (.read ht (hneeded.resolve_left id) hf hfd hfits)
    case write =>
      obtain ⟨f, fd, hf, hfd⟩ := hstarts
      exact hno _ (.write ht (hneeded.resolve_left id) hf hfd)
    all_goals exact hstarts
  have hrun := (spec_respond hm hw hsize hS).run rfl env
    fun c _ => ⟨fun _ _ => trivial, False.elim, nofun⟩
  exact fun c hc hkind => hrun.1.1 c hc hkind

/-! ## The field `ecode` -/

/-- The errors of the replies in a run are error numbers of the system, and those of what went wrong. -/
def ReportsErrors (env : Program.Environment Syscall Syscall.Answer) (h : Handler) (m : Bytes)
    (w : MessageResponse) : Prop :=
  ∀ reply after, ((respond m w h).run env []).1 = (.value reply, after) →
    leAt 4 1 reply.bytes = tlerror + 1 → 1 ≤ leAt 7 4 reply.bytes ∧ leAt 7 4 reply.bytes ≤ 4095 ∧
      Reports ((respond m w h).run env []).2 (leAt 7 4 reply.bytes)

theorem ecode_of_written {ecode tag : Nat} {body : MessageResponse} (hbody : body.written = leBytes 4 ecode)
    (hlt : ecode < 2 ^ 32) : leAt 7 4 (Reply.rlerror ecode tag body).bytes = ecode := by
  rw [Reply.bytes, MessageResponse.result, hbody, ← List.append_nil (leBytes 4 ecode)]
  exact leAt_append_leBytes (by simp only [List.length_append, length_leBytes]) hlt []

theorem code_of_rlerror {ecode tag : Nat} {body : MessageResponse} :
    leAt 4 1 (Reply.rlerror ecode tag body).bytes = tlerror + 1 := by
  rw [Reply.bytes, MessageResponse.result, List.append_assoc, List.append_assoc]
  exact leAt_append_leBytes (length_leBytes 4 _) (by decide) _

theorem code_of_answer {t : MessageType} {tag : Nat} {body : MessageResponse}
    (ht : messageType (leAt 4 1 m) = some t) :
    leAt 4 1 (Reply.answer (leAt 4 1 m) tag body).bytes ≠ tlerror + 1 := by
  have hcode := code_of_messageType ht
  have hlt : t.code + 1 < 256 ^ 1 := by
    cases t <;> decide
  rw [Reply.bytes, MessageResponse.result, List.append_assoc, List.append_assoc, ← hcode,
    leAt_append_leBytes (length_leBytes 4 _) hlt]
  cases t <;> decide

theorem respond_small (hm : headerSize ≤ m.length) (hw : w.written = []) (hsize : w.size < 11) :
    (respond m w h).Ensures fun r _ => ∀ reply, r.1 = .value reply →
      leAt 4 1 reply.bytes ≠ tlerror + 1 := by
  have herror (x : Int) (c : Context) :
      finishMessage m w (.error x) c = pure (.halted .writePast, { c with response := w }) := by
    have hfits : ¬ headerSize + (w.written ++ leBytes 4 (ecodeOf x)).length ≤ w.size := by
      rw [hw, List.nil_append, length_leBytes, headerSize]
      omega
    exact (Action.bind_of_value rfl).trans
      (Action.bind_of_halted (write_past (h := c.handler) (b := c.message) hfits))
  change (processMessage ⟨h, m, w⟩ >>= _).Ensures _
  rw [processMessage_run hm]
  change (((handlerOf m ⟨h, m.drop headerSize, w⟩ >>= _) >>= _) >>= _).Ensures _
  cases ht : messageType (leAt 4 1 m) with
  | none =>
    rw [handlerOf, ht]
    change (finishMessage m w (.error enotsup) _ >>= _).Ensures _
    rw [herror]
    rintro _ ⟨⟩
  | some t =>
    refine Program.ensures_bind.mpr (Program.ensures_bind.mpr (Program.ensures_bind.mpr
      ((Program.ensures_true _).mono fun r u _ => ?_)))
    obtain ⟨o, c⟩ := r
    cases o with
    | value a =>
      rintro _ ⟨⟩
      exact code_of_answer ht
    | error x =>
      change (finishMessage m w (.error x) c).Ensures _
      rw [herror]
      rintro _ ⟨⟩
    | halted x => rintro _ ⟨⟩

/-- **The field `ecode`** of every error is the error number of what went wrong if and only if no
asynchronous read or write fails in its completion, and no write when it is started. -/
theorem reports_errors_iff (hw : w.written = []) : ReportsErrors env h m w ↔
    (11 ≤ w.size → ∀ e, Starts h m w e → ¬ Misreported e (env [] e)) := by
  constructor
  · intro hreports hsize e hstarts hmisreported
    obtain ⟨n, tag, body, after, hrun, hwritten⟩ := (hstarts.run hw hsize env).2 hmisreported
    obtain ⟨hpos, hlt⟩ := n.property
    have hecode : ecodeOf n.val = 2 ^ 32 - n.val := by
      rw [ecodeOf]
      omega
    have hle := (hreports _ after hrun code_of_rlerror).2.1
    rw [ecode_of_written hwritten (by omega), hecode] at hle
    omega
  · intro hno reply after hrun hcode
    by_cases hm : headerSize ≤ m.length
    swap
    · rw [respond_short (Nat.lt_of_not_le hm)] at hrun
      cases hrun
    by_cases hsize : 11 ≤ w.size
    swap
    · obtain ⟨u, -, hsmall⟩ := (respond_small hm hw (Nat.lt_of_not_le hsize)).run env []
      rw [hrun] at hsmall
      exact absurd hcode (hsmall reply rfl)
    have hgood : ∀ c ∈ ((respond m w h).run env []).2, ¬ Misreported c.1 c.2 := by
      by_cases hstarts : ∃ e, Starts h m w e
      · obtain ⟨e, hstarts⟩ := hstarts
        rw [(hstarts.run hw hsize env).1]
        intro c hc
        obtain rfl := List.mem_singleton.mp hc
        exact hno hsize e hstarts
      · intro c hc hmisreported
        exact run_without_aio hm hw hsize (not_exists.mp hstarts) c hc (kind_of_misreported hmisreported)
    have hends := ((spec_respond hm hw hsize (Setting.reporting_suits _ h m w)).run rfl env
      (reporting_rely hgood)).2
    rw [hrun] at hends
    cases reply with
    | answer code tag body =>
      obtain ⟨rfl, -, t, ht, -⟩ := hends
      exact absurd hcode (code_of_answer ht)
    | rlerror ecode tag body =>
      obtain ⟨-, hwritten, e, rfl, -, ⟨hlt, hneg, hreports⟩, -⟩ := hends
      have hecode := ecodeOf_negative hlt hneg
      rw [ecode_of_written hwritten (by omega), hecode]
      exact ⟨by omega, by omega, hreports⟩

/-- A `Tstatfs` starts no read and no write. -/
theorem reports_errors_statFs : ReportsErrors (fun _ e => working e) (Handler.fresh false)
      (received .statfs []).message (.ofSize staticBufferSize true (by decide)) ↔
    (11 ≤ staticBufferSize → ∀ e, Starts (Handler.fresh false) (received .statfs []).message
      (.ofSize staticBufferSize true (by decide)) e → ¬ Misreported e (working e)) :=
  reports_errors_iff rfl

/-- A system in which reads fail in their completion. -/
def failingReads : (e : Syscall) → e.Answer
  | .aioRead _ _ _ => .failed ⟨5, isErrno_five⟩
  | e => working e

/-- `Tread` of the fid `0`. -/
def receivedRead : Received := received .read (leBytes 4 0 ++ leBytes 8 0 ++ leBytes 4 10)

/-- A read fails with `EIO`, and the reply has the error number `2 ^ 32 - 5`. -/
theorem read_misreported : ¬ ∀ h, Reaches Handler.receive (fun _ _ => True) (Handler.fresh false) h →
    ∀ env m, ReportsErrors env h m (.ofSize staticBufferSize true (by decide)) := by
  intro hall
  obtain ⟨h₁, h₁_eq⟩ : ∃ h, (Handler.fresh false).receive receivedVersion = some h := ⟨_, rfl⟩
  obtain ⟨h₂, h₂_eq⟩ : ∃ h, h₁.receive receivedAttach = some h := by
    cases h₁_eq
    exact ⟨_, rfl⟩
  obtain ⟨h, h_eq, reply, after, hrun, hcode, hecode⟩ : ∃ h, h₂.receive receivedOpen = some h ∧
      ∃ reply after, ((processSocketMessage receivedRead.message h).run (fun _ e => failingReads e) []).1 =
        (.value reply, after) ∧ leAt 4 1 reply.bytes = tlerror + 1 ∧
          ¬ leAt 7 4 reply.bytes ≤ 4095 := by
    cases h₁_eq
    cases h₂_eq
    exact ⟨_, rfl, _, _, rfl, rfl, by decide⟩
  have hreaches := ((Reaches.start.step (C := fun _ _ => True) trivial h₁_eq).step trivial h₂_eq).step
    trivial h_eq
  exact hecode (hall h hreaches (fun _ e => failingReads e) receivedRead.message reply after hrun hcode).2.1

end WslFreeBSD.Plan9
