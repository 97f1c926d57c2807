import WslFreeBSD.Lib.Transitions
import WslFreeBSD.Plan9.RequestTerms

/-!
# Sessions of requests

Requests are handled one after the other by one handler, each with a response of the size that its caller
gives it. A request that fails should leave the handler as it was: this holds if there is room for the reply
to a request that has changed the handler when `EnsureSize` is called.
-/

namespace WslFreeBSD.Plan9

open Lib

def failing : (e : Syscall) → e.Answer
  | .setgroups _ | .setresgid _ | .setresuid _ => .error ⟨5, by decide⟩
  | .fstatat _ _ _ | .fstat _ => .error ⟨5, by decide⟩
  | .openat _ _ _ _ | .openPath _ _ => .error ⟨5, by decide⟩
  | .fdPath _ => .error ⟨5, by decide⟩
  | .readlinkat _ _ _ => .error ⟨5, by decide⟩
  | .mkdirat _ _ _ | .unlinkat _ _ _ | .renameat _ _ _ | .symlinkat _ _ _ | .linkat _ _ _
  | .mknodat _ _ _ _ _ | .ftruncate _ _ | .fchmodat _ _ _ | .fchownat _ _ _ _ | .utimensat _ _ _ _
  | .faccessat _ _ _ | .fsync _ => .error ⟨5, by decide⟩
  | .capget => .error ⟨5, by decide⟩
  | .fstatfs _ => .error ⟨5, by decide⟩
  | .aioRead _ _ _ | .aioWrite _ _ _ => .refused ⟨5, by decide⟩
  | .fdopendir _ => .error ⟨5, by decide⟩
  | .rewinddir _ | .seekdir _ _ => ()
  | .readdir _ => .error ⟨5, by decide⟩
  | .findMount _ => .error ⟨5, by decide⟩
  | .lgetxattr _ _ _ | .llistxattr _ _ => .error ⟨5, by decide⟩
  | .lsetxattr _ _ _ _ | .lremovexattr _ _ | .allocate _ => .error ⟨5, by decide⟩
  | .unwritten size => ⟨List.replicate size 0, length_unwritten size⟩
  | .share _ => none
  | .geteuid | .getUserGroupId _ | .getGroupIdByName _ => 0
  | .getgrouplist _ _ => none

/-- A message with the size of the response to it, and the system that answers the calls. -/
structure Request where
  message : Bytes
  responseSize : Nat
  env : Program.Environment Syscall Syscall.Answer

/-- A request that was replied to. -/
structure Exchange where
  message : Bytes
  before : Handler
  reply : Reply
  after : Handler

structure Session where
  handler : Handler
  exchanges : List Exchange

namespace Session

def fresh (allowRenegotiate : Bool) : Session := ⟨Handler.fresh allowRenegotiate, []⟩

/-- A request is handled; nothing follows a halt. -/
def step (s : Session) (a : Request) : Option Session :=
  match ((processMessageAsync a.message a.responseSize s.handler).run a.env []).1 with
  | (.value reply, after) => some ⟨after, ⟨a.message, s.handler, reply, after⟩ :: s.exchanges⟩
  | _ => none

end Session

/-- What is seen of a fid in the request of a message. -/
def seenIn (m : Bytes) (item : Fid) : Fid :=
  match messageType (leAt 4 1 m) with
  | some t => seenBy t item
  | none => item

/-- The table of fids and what was negotiated are the same behind the request of a message. -/
def Handler.SameFor (m : Bytes) (h h' : Handler) : Prop :=
  (∀ fid, (h'.fids fid).map (seenIn m) = (h.fids fid).map (seenIn m)) ∧
    h'.negotiatedSize = h.negotiatedSize ∧ h'.negotiated = h.negotiated ∧ h'.use9P2000W = h.use9P2000W

/-- A request that fails changes nothing, unless it is to remove a fid. -/
def Exchange.Unchanged (x : Exchange) : Prop :=
  ∀ ecode tag body, x.reply = .rlerror ecode tag body →
    messageType (leAt 4 1 x.message) ≠ some .clunk → messageType (leAt 4 1 x.message) ≠ some .remove →
      x.before.SameFor x.message x.after

/-- There is room for the reply to a request that changes the handler before it makes sure of it. -/
def Roomy (s : Session) (a : Request) : Prop :=
  11 ≤ a.responseSize ∧ ∀ t, messageType (leAt 4 1 a.message) = some t → t ≠ .clunk →
    Steady s.handler t (a.message.drop headerSize) a.responseSize

namespace Session

theorem see_messageTerms (h : Handler) (m : Bytes) (size : Nat) :
    (messageTerms h m size).see = seenIn m := by
  funext item
  rw [messageTerms, seenIn]
  cases messageType (leAt 4 1 m) <;> rfl

theorem replied_of_run {h after : Handler} {a : Request} {reply : Reply} (hsize : 11 ≤ a.responseSize)
    (hrun : ((processMessageAsync a.message a.responseSize h).run a.env []).1 = (.value reply, after)) :
    Replied .free (messageTerms h a.message a.responseSize) h a.message reply after := by
  have hheader : headerSize ≤ a.responseSize := le_trans (by decide) hsize
  rw [processMessageAsync, dif_pos hheader] at hrun
  by_cases hm : headerSize ≤ a.message.length
  · have hspec := spec_respond (S := .free) (h := h) (w := .ofSize a.responseSize false hheader) hm rfl
      hsize fun t _ => Setting.free_suits h t _ _
    have hends := (hspec.run rfl a.env fun c _ => Setting.free_rely c.1 c.2).2
    rwa [hrun] at hends
  · rw [respond_short (Nat.lt_of_not_le hm)] at hrun
    cases hrun

theorem exchange_unchanged {s : Session} {after : Handler} {a : Request} {reply : Reply}
    (hroomy : Roomy s a)
    (hrun : ((processMessageAsync a.message a.responseSize s.handler).run a.env []).1 =
      (.value reply, after)) :
    Exchange.Unchanged ⟨a.message, s.handler, reply, after⟩ := by
  rintro ecode tag body rfl hclunk -
  obtain ⟨-, -, e, -, -, -, -, hview⟩ := replied_of_run hroomy.1 hrun
  have hsteady : (messageTerms s.handler a.message a.responseSize).steady := by
    rw [messageTerms]
    cases ht : messageType (leAt 4 1 a.message) with
    | none => trivial
    | some t => exact hroomy.2 t ht fun h => hclunk (h ▸ ht)
  obtain ⟨hfids, hsize, hnegotiated, huse⟩ := Prod.mk.inj (hview hsteady) |>.imp_right
    (Prod.mk.inj · |>.imp_right Prod.mk.inj)
  rw [see_messageTerms] at hfids
  exact ⟨congrFun hfids, hsize, hnegotiated, huse⟩

/-- `Tversion` of 8192 bytes and `9P2000.L`. -/
def versionMessage : Bytes :=
  leBytes 4 21 ++ leBytes 1 100 ++ leBytes 2 65535 ++ leBytes 4 8192 ++ leBytes 2 8 ++ protocolVersionL

def versionRequest (responseSize : Nat) : Request :=
  ⟨versionMessage, responseSize, fun _ e => failing e⟩

/-- `Tstatfs` of the fid `1`. -/
def statFsRequest : Request :=
  ⟨leBytes 4 11 ++ leBytes 1 8 ++ leBytes 2 1 ++ leBytes 4 1, 11, fun _ e => failing e⟩

def lastCode (s : Session) : Option Nat := s.exchanges.head?.map fun x => leAt 4 1 x.reply.bytes

/-- **A request that fails changes nothing**, in every run whose requests have room for their replies. -/
theorem session_unchanged {allowRenegotiate : Bool} {s : Session}
    (h : Reaches step Roomy (fresh allowRenegotiate) s) : ∀ x ∈ s.exchanges, x.Unchanged := by
  refine h.invariant (I := fun s => ∀ x ∈ s.exchanges, x.Unchanged) nofun fun s a s' hs ha hstep => ?_
  rw [step] at hstep
  split at hstep
  · next reply after hrun =>
    cases hstep
    exact List.forall_mem_cons.mpr ⟨exchange_unchanged ha hrun, hs⟩
  · cases hstep

/-- A version is negotiated, and the fid of the next request is not there. -/
theorem session_unchanged_statFs :
    ∃ s, (fresh false).step (versionRequest 21) >>= (step · statFsRequest) = some s ∧
    lastCode s = some 7 ∧ s.handler.negotiated ∧ ∀ x ∈ s.exchanges, x.Unchanged := by
  obtain ⟨s, hs⟩ : ∃ s, (fresh false).step (versionRequest 21) = some s := ⟨_, rfl⟩
  obtain ⟨s', hs', hcode, hnegotiated⟩ : ∃ s', s.step statFsRequest = some s' ∧ lastCode s' = some 7 ∧
      s'.handler.negotiated := by
    cases hs
    exact ⟨_, rfl, rfl, rfl⟩
  have hversion : Roomy (fresh false) (versionRequest 21) := by
    refine ⟨by decide, ?_⟩
    rintro _ ⟨⟩ -
    exact fun _ _ _ => le_rfl
  have hstatFs : Roomy s statFsRequest := by
    refine ⟨le_rfl, ?_⟩
    rintro _ ⟨⟩ -
    trivial
  refine ⟨s', by rw [hs]; exact hs', hcode, hnegotiated, ?_⟩
  exact session_unchanged ((Reaches.start.step hversion hs).step hstatFs hs')

/-- The reply to a `Tversion` does not fit into 11 bytes, but the version is negotiated. -/
theorem version_negotiated_behind_error : ¬ ∀ s,
    Reaches step (fun _ a => 11 ≤ a.responseSize) (fresh false) s → ∀ x ∈ s.exchanges, x.Unchanged := by
  intro h
  obtain ⟨s, hs, hcode⟩ : ∃ s, (fresh false).step (versionRequest 11) = some s ∧ lastCode s = some 7 :=
    ⟨_, rfl, rfl⟩
  have hunchanged := h s (Reaches.start.step (a := versionRequest 11) le_rfl hs)
  cases hs
  obtain ⟨-, -, hnegotiated, -⟩ := hunchanged _ (.head _) _ _ _ rfl nofun nofun
  cases hnegotiated

end Session

end WslFreeBSD.Plan9
