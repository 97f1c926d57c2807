import WslFreeBSD.Plan9.Events
import WslFreeBSD.Plan9.WOpen

/-!
# What a `Twopen` comes to

A request finds its item name by name, makes it if it is not there, and opens it. `Trail` says how far a file
has come along the names: its path, and that all its parts have been seen, and nothing else. It is what a step
of `walkParents` leaves, and at its end the item was there (`Located.existed`), a file was made for it
(`Located.file`), a directory was made and the file has stayed at its parent (`Located.directory`), or there
are no names (`Located.none`).
-/

namespace WslFreeBSD.Plan9

open Lib

/-! ## Names -/

def messageNames : Nat → Bytes → List Bytes
  | 0, _ => []
  | n + 1, b => stringAt b :: messageNames n (b.drop (2 + stringLength b))

def behindNames : Nat → Bytes → Bytes
  | 0, b => b
  | n + 1, b => behindNames n (b.drop (2 + stringLength b))

theorem messageNames_getElem {n k : Nat} (hk : k < n) (b : Bytes) :
    (messageNames n b)[k]? = some (stringAt (behindNames k b)) := by
  induction k generalizing n b with
  | zero =>
    obtain ⟨n, rfl⟩ := Nat.exists_eq_succ_of_ne_zero (Nat.ne_of_gt hk)
    rfl
  | succ k ih =>
    obtain ⟨n, rfl⟩ := Nat.exists_eq_succ_of_ne_zero (Nat.ne_of_gt (Nat.lt_of_le_of_lt (Nat.zero_le _) hk))
    rw [messageNames, List.getElem?_cons_succ, behindNames]
    exact ih (Nat.lt_of_succ_lt_succ hk) _

theorem behindNames_succ (k : Nat) (b : Bytes) :
    behindNames (k + 1) b = (behindNames k b).drop (2 + stringLength (behindNames k b)) := by
  induction k generalizing b with
  | zero => rfl
  | succ k ih => exact ih _

def pathBehind (path : Bytes) (names : List Bytes) (k : Nat) : Bytes := (names.take k).foldl appendPath path

section Paths

variable {path name : Bytes} {names : List Bytes} {k : Nat}

theorem pathBehind_succ (hname : names[k]? = some name) :
    pathBehind path names (k + 1) = appendPath (pathBehind path names k) name := by
  rw [pathBehind, List.take_add_one, hname, Option.toList_some, List.foldl_append]
  rfl

theorem length_appendPath_le (path name : Bytes) : path.length ≤ (appendPath path name).length := by
  rw [appendPath]
  split
  · rw [List.length_append]
    exact Nat.le_add_right _ _
  · rw [List.length_append]
    exact Nat.le_add_right _ _

theorem length_pathBehind_le {i : Nat} (hi : i ≤ k) :
    (pathBehind path names i).length ≤ (pathBehind path names k).length := by
  induction hi with
  | refl => exact le_rfl
  | @step k _ ih =>
    refine ih.trans ?_
    cases hname : names[k]? with
    | none =>
      have hshort := List.getElem?_eq_none_iff.mp hname
      rw [pathBehind, pathBehind, List.take_of_length_le hshort, List.take_of_length_le (Nat.le_succ_of_le hshort)]
    | some name =>
      rw [pathBehind_succ hname]
      exact length_appendPath_le _ _

theorem pathBehind_ne (hget : names[k]? = some name) (hname : isName name) {i : Nat} (hi : i ≤ k) :
    pathBehind path names i ≠ pathBehind path names (k + 1) := by
  intro heq
  have hle : (pathBehind path names i).length ≤ (pathBehind path names k).length := length_pathBehind_le hi
  have hlt := length_appendPath_lt (pathBehind path names k) hname
  rw [heq, pathBehind_succ hget] at hle
  omega

end Paths

/-- The name behind others can be read, and is one. -/
def Readable (b : Bytes) (k : Nat) : Prop :=
  holdsString (behindNames k b) ∧ isName (stringAt (behindNames k b))

/-- The path behind the first of `n` names of a message. -/
def wopenPath (f : File) (n : Nat) (b : Bytes) (k : Nat) : Bytes :=
  pathBehind f.fileName (messageNames n b) k

/-- How far a file has come along the names of a message from where it started, and what has been seen for
it. -/
structure Trail (f : File) (n : Nat) (b : Bytes) (k : Nat) (H : List Event) (g : File) : Prop where
  root : g.root = f.root
  state : g.state = f.state
  path : g.fileName = wopenPath f n b k
  isPath : IsPath g.fileName
  readable : ∀ i < k, Readable b i
  directory : 0 < k → f.qid.isDirectory
  seen : ∀ i, 0 < i → i ≤ k → ∃ st, .seen f.root.rootFd (wopenPath f n b i) st ∈ H
  only : ∀ ev ∈ H, ∃ i st, i ≤ k ∧ ev = .seen f.root.rootFd (wopenPath f n b i) st
  qid : k = 0 ∧ g = f ∨ 0 < k ∧ ∃ st, g.qid = statToQid st ∧ .seen f.root.rootFd g.fileName st ∈ H

namespace Trail

variable {f g g' : File} {n : Nat} {b : Bytes} {k : Nat} {H H' : List Event}

theorem start (hpath : IsPath f.fileName) : Trail f n b 0 [] f where
  root := rfl
  state := rfl
  path := rfl
  isPath := hpath
  readable := fun _ hi => absurd hi (Nat.not_lt_zero _)
  directory := fun h => absurd h (Nat.lt_irrefl 0)
  seen := fun _ hpos hle => absurd hle (Nat.not_le.mpr hpos)
  only := fun _ h => absurd h List.not_mem_nil
  qid := Or.inl ⟨rfl, rfl⟩

theorem wopenPath_succ (hk : k < n) :
    wopenPath f n b (k + 1) = appendPath (wopenPath f n b k) (stringAt (behindNames k b)) :=
  pathBehind_succ (messageNames_getElem hk b)

theorem directory_of_qid (h : Trail f n b k H g) (hdirectory : g.qid.isDirectory) : f.qid.isDirectory := by
  rcases h.qid with ⟨-, rfl⟩ | ⟨hpos, -⟩
  · exact hdirectory
  · exact h.directory hpos

theorem step (h : Trail f n b k H g) (hk : k < n) (hread : Readable b k) {qid : Qid}
    (hwalk : Walked g (stringAt (behindNames k b)) H (.ok qid) g' H') :
    Trail f n b (k + 1) H' g' ∧ qid = g'.qid := by
  obtain ⟨st, rfl, hdirectory, rfl, rfl⟩ := hwalk
  have hpath : appendPath g.fileName (stringAt (behindNames k b)) = wopenPath f n b (k + 1) := by
    rw [wopenPath_succ hk, h.path]
  refine ⟨⟨h.root, h.state, hpath, isPath_appendPath _ hread.2, ?_, fun _ => h.directory_of_qid hdirectory,
    ?_, ?_, Or.inr ⟨Nat.succ_pos k, st, rfl, ?_⟩⟩, rfl⟩
  · intro i hi
    rcases Nat.lt_succ_iff_lt_or_eq.mp hi with hi | rfl
    · exact h.readable i hi
    · exact hread
  · intro i hpos hle
    rcases Nat.le_succ_iff.mp hle with hle | rfl
    · obtain ⟨st', hseen⟩ := h.seen i hpos hle
      exact ⟨st', List.mem_append_left _ hseen⟩
    · refine ⟨st, List.mem_append_right _ (List.mem_singleton.mpr ?_)⟩
      rw [h.root, hpath]
  · intro ev hev
    rcases List.mem_append.mp hev with hev | hev
    · obtain ⟨i, st', hle, rfl⟩ := h.only ev hev
      exact ⟨i, st', Nat.le_succ_of_le hle, rfl⟩
    · obtain rfl := List.mem_singleton.mp hev
      exact ⟨k + 1, st, le_rfl, by rw [h.root, hpath]⟩
  · rw [← h.root]
    exact List.mem_append_right _ List.mem_cons_self

end Trail

/-! ## Items -/

/-- A status of a reply in which nothing is opened. -/
def WOpenStatus.IsStop (status : WOpenStatus) : Prop := status ≠ .opened ∧ status ≠ .created

/-- What steps 1 to 3 come to, for `n` names of a message and the flags of the request. -/
inductive Located (f : File) (n : Nat) (b : Bytes) (flags : Nat) :
    WOpenResult WOpenItem → File → List Event → Prop where
  | stopped {status : WOpenStatus} {k : Nat} {H : List Event} {g : File} (hstatus : status.IsStop) (hk : k < n)
      (hread : Readable b k) (htrail : Trail f n b k H g) : Located f n b flags (.error (status, k)) g H
  | existed {H : List Event} {g : File} (hn : 0 < n) (htrail : Trail f n b n H g) :
      Located f n b flags (.ok ⟨true, true, g.qid⟩) g H
  | file {k : Nat} {H : List Event} {g : File} {fd : Nat} {st : Stat} (hk : k + 1 = n)
      (hread : Readable b k) (htrail : Trail f n b k H g) :
      Located f n b flags (.ok ⟨false, false, statToQid st⟩)
        ({ g with fileName := wopenPath f n b n, state := .file fd }.found st)
        (H ++ [.made f.root.rootFd (wopenPath f n b n), .opened f.root.rootFd (wopenPath f n b n) fd,
          .described fd st])
  | directory {k : Nat} {H : List Event} {g : File} {st : Stat} (hk : k + 1 = n) (hread : Readable b k)
      (htrail : Trail f n b k H g) (hcreate : anySet flags OpenFlags.create)
      (hdirectory : anySet flags OpenFlags.directory)
      (hparent : anySet flags OpenFlags.exclusive ∨ f.qid.isDirectory) :
      Located f n b flags (.ok ⟨false, true, statToQid st⟩) g
        (H ++ [.made f.root.rootFd (wopenPath f n b n), .seen f.root.rootFd (wopenPath f n b n) st])
  | none (hn : n = 0) : Located f n b flags (.ok ⟨false, true, f.qid⟩) f []

section Steps

variable {env : Surroundings} (henv : ∀ t e, Lawful e (env t e)) {h : Handler} {w : MessageResponse}
  {f g : File} {n : Nat} {b : Bytes} {k : Nat} {H : List Event} {flags : Nat}

include henv

theorem does_walkParents (flags m : Nat) (hm : k + m < n) (htrail : Trail f n b k H g) :
    Does env (From ⟨h, behindNames k b, w⟩ H) (walkParents m k g)
      (fun r c t => (c.handler = h ∧ c.response = w) ∧
        (r.1 = .ok () → c.message = behindNames (k + m) b ∧ Trail f n b (k + m) (events t) r.2) ∧
        ∀ status j, r.1 = .error (status, j) →
          Located f n b flags (.error (status, j)) r.2 (events t)) fun _ c _ => c.handler = h := by
  induction m generalizing k g H with
  | zero =>
    refine Action.on_pure ?_
    rintro _ t ⟨rfl, rfl⟩
    exact ⟨⟨rfl, rfl⟩, fun _ => ⟨rfl, htrail⟩, fun _ _ hr => by cases hr⟩
  | succ m ih =>
    rw [walkParents]
    refine does_name_then fun hstring hname => ?_
    have hread : Readable b k := ⟨hstring, hname⟩
    refine (does_onFile (does_walk henv htrail.isPath hname)).bind fun r => ?_
    obtain ⟨r, g'⟩ := r
    rw [← behindNames_succ]
    cases r with
    | ok qid =>
      refine Action.on_of_states fun c t hc => ?_
      obtain ⟨rfl, hwalk⟩ := hc
      have htrail' := (htrail.step (by omega) hread hwalk).1
      have hrest := ih (k := k + 1) (by omega) htrail'
      rw [show k + 1 + m = k + (m + 1) by omega] at hrest
      refine hrest.pre ?_
      rintro _ _ ⟨rfl, rfl⟩
      exact ⟨rfl, rfl⟩
    | error e =>
      have hstop (status : WOpenStatus) (hstatus : status.IsStop) : ∀ c t,
          (c = (⟨h, behindNames (k + 1) b, w⟩ : Context) ∧ Walked g (stringAt (behindNames k b)) H (.error e) g'
            (events t)) ∧ e ≠ eacces → (c.handler = h ∧ c.response = w) ∧
            Located f n b flags (.error (status, k)) g' (events t) := by
        rintro _ t ⟨⟨rfl, rfl, -, ht, -⟩, he⟩
        rw [ht he]
        exact ⟨⟨rfl, rfl⟩, .stopped hstatus (by omega) hread htrail⟩
      refine .ite (fun he => Action.on_pure ?_) fun _ => .ite (fun he => Action.on_pure ?_) fun _ =>
        Action.on_throw ?_
      · intro c t hc
        obtain ⟨hkeep, hlocated⟩ := hstop .parentNotFound ⟨by decide, by decide⟩ c t
          ⟨hc, he ▸ by decide⟩
        refine ⟨hkeep, fun h => (by cases h), ?_⟩
        rintro _ _ ⟨⟩
        exact hlocated
      · intro c t hc
        obtain ⟨hkeep, hlocated⟩ := hstop .stopped ⟨by decide, by decide⟩ c t ⟨hc, he ▸ by decide⟩
        refine ⟨hkeep, fun h => (by cases h), ?_⟩
        rintro _ _ ⟨⟩
        exact hlocated
      · rintro _ t ⟨rfl, -⟩
        exact rfl

def Item (f : File) (n : Nat) (b : Bytes) (flags : Nat) (g : File) (H : List Event) :
    Except Int Qid × Bool × File → List Event → Prop
  | (.ok qid, needOpen, g'), H' => Located f n b flags (.ok ⟨false, needOpen, qid⟩) g' H'
  | (.error e, _, g'), H' => g' = g ∧ (e = eexist → H' = H)

theorem does_createItem (hk : k + 1 = n) (hread : Readable b k) (htrail : Trail f n b k H g)
    (hcreate : anySet flags OpenFlags.create)
    (hparent : anySet flags OpenFlags.exclusive ∨ f.qid.isDirectory) (mode : Nat) (c : Context) :
    Does env (From c H) (createItem (stringAt (behindNames k b)) flags mode true g)
      (fun r c' t => c' = c ∧ Item f n b flags g H r (events t)) fun _ c' _ => c'.handler = c.handler := by
  have hpath : appendPath g.fileName (stringAt (behindNames k b)) = wopenPath f n b n := by
    subst hk
    rw [Trail.wopenPath_succ (Nat.lt_succ_self k), htrail.path]
  refine .ite (fun hdirectory => ?_) fun _ => ?_
  · refine Action.On.bind (V := fun r c' t => c' = c ∧ MadeDirectory g (stringAt (behindNames k b)) H r (events t))
      ((does_mkDir henv _ _ c).mono (fun _ _ h => h) (fun _ _ _ h => h) (fun _ c' _ h => congrArg _ h)
        fun _ _ _ h => h) fun r => Action.on_pure ?_
    rintro _ t ⟨rfl, hmade⟩
    refine ⟨rfl, ?_⟩
    cases r with
    | ok qid =>
      obtain ⟨st, rfl, ht⟩ := hmade
      rw [hpath, htrail.root] at ht
      rw [ht]
      exact .directory hk hread htrail hcreate hdirectory hparent
    | error e => exact ⟨rfl, hmade⟩
  · refine (does_onFile (does_create henv hread.2 flags mode)).bind fun r => Action.on_pure ?_
    obtain ⟨r, g'⟩ := r
    rintro _ t ⟨rfl, hcreated⟩
    refine ⟨rfl, ?_⟩
    cases r with
    | ok qid =>
      obtain ⟨fd, st, rfl, rfl, ht⟩ := hcreated
      rw [hpath, htrail.root] at ht
      rw [ht, hpath]
      exact .file hk hread htrail
    | error e => exact hcreated

theorem does_walkItem (hread : Readable b k) (htrail : Trail f n b k H g) (c : Context) :
    Does env (From c H) (walkItem (stringAt (behindNames k b)) flags g)
      (fun r c' t => c' = c ∧ (r.1 = none → allSet flags (OpenFlags.create ||| OpenFlags.exclusive) ∧
        r.2 = g ∧ events t = H) ∧ ∀ q, r.1 = some q → Walked g (stringAt (behindNames k b)) H q r.2 (events t))
      fun _ c' _ => c'.handler = c.handler := by
  refine .ite (fun hboth => Action.on_pure ?_) fun _ => ?_
  · rintro _ t ⟨rfl, ht⟩
    exact ⟨rfl, fun _ => ⟨hboth, rfl, ht⟩, fun _ h => by cases h⟩
  · refine (does_onFile (does_walk henv htrail.isPath hread.2)).bind fun r => Action.on_pure ?_
    rintro _ t ⟨rfl, hr⟩
    refine ⟨rfl, fun h => (by cases h), ?_⟩
    rintro _ ⟨⟩
    exact hr

theorem does_findItem (hk : k + 1 = n) (hread : Readable b k) (htrail : Trail f n b k H g) (mode retries : Nat)
    (entryQid : Qid) (c : Context) :
    Does env (From c H) (findItem (stringAt (behindNames k b)) flags mode n retries true entryQid g)
      (fun r c' t => c' = c ∧ Located f n b flags r.1 r.2 (events t)) fun _ c' _ => c'.handler = c.handler := by
  induction retries with
  | zero =>
    refine Action.on_throw ?_
    rintro _ _ ⟨rfl, -⟩
    exact rfl
  | succ retries ih =>
    rw [findItem]
    have hcreated (needed : anySet flags OpenFlags.create → anySet flags OpenFlags.exclusive ∨
        f.qid.isDirectory) (hcreate : anySet flags OpenFlags.create) :
        Does env (From c H) (findCreated (stringAt (behindNames k b)) flags mode n retries true entryQid g)
          (fun r c' t => c' = c ∧ Located f n b flags r.1 r.2 (events t))
          fun _ c' _ => c'.handler = c.handler := by
      refine .ite (fun _ => ?_) fun hnot => absurd hcreate hnot
      refine (does_createItem henv hk hread htrail hcreate (needed hcreate) mode c).bind fun r => ?_
      obtain ⟨r, needOpen, g'⟩ := r
      cases r with
      | ok qid => exact Action.on_pure fun _ _ h => h
      | error e =>
        refine .ite (fun he => ?_) fun _ => Action.on_throw ?_
        · refine Action.on_of_states ?_
          rintro _ t ⟨rfl, rfl, ht⟩
          refine ih.pre ?_
          rintro _ _ ⟨rfl, rfl⟩
          exact ⟨rfl, ht he.1⟩
        · rintro _ t ⟨rfl, -⟩
          exact rfl
    refine (does_walkItem henv hread htrail c).bind fun r => Action.on_of_states fun c' t hc => ?_
    obtain ⟨r, g'⟩ := r
    obtain ⟨rfl, hnone, hsome⟩ := hc
    cases r with
    | none =>
      obtain ⟨hboth, rfl, ht⟩ := hnone rfl
      obtain ⟨hcreate, hexclusive⟩ := allSet_create_exclusive_iff.mp hboth
      refine (hcreated (fun _ => Or.inl hexclusive) hcreate).pre ?_
      rintro _ _ ⟨rfl, rfl⟩
      exact ⟨rfl, ht⟩
    | some r =>
      have hwalk := hsome r rfl
      cases r with
      | ok qid =>
        obtain ⟨htrail', hqid⟩ := htrail.step (hk ▸ Nat.lt_succ_self k) hread hwalk
        rw [hqid]
        refine Action.on_pure ?_
        rintro _ _ ⟨rfl, rfl⟩
        exact ⟨rfl, .existed (hk ▸ Nat.succ_pos k) (hk ▸ htrail')⟩
      | error e =>
        obtain ⟨rfl, -, ht, hdirectory⟩ := hwalk
        have hstop {status : WOpenStatus} (hstatus : status.IsStop) (he : e ≠ eacces) :
            Located f n b flags (.error (status, n - 1)) g' (events t) := by
          rw [ht he, ← hk, Nat.add_sub_cancel]
          exact .stopped hstatus (Nat.lt_succ_self k) hread (hk ▸ htrail)
        refine .ite (fun he => .ite (fun _ => Action.on_pure ?_) fun hcreate => ?_) fun _ =>
          .ite (fun he => Action.on_pure ?_) fun _ => Action.on_throw ?_
        · rintro _ _ ⟨rfl, rfl⟩
          exact ⟨rfl, hstop ⟨by decide, by decide⟩ (he ▸ by decide)⟩
        · refine (hcreated (fun _ => Or.inr (htrail.directory_of_qid
            (hdirectory.resolve_right (he ▸ by decide)))) (not_not.mp hcreate)).pre ?_
          rintro _ _ ⟨rfl, rfl⟩
          exact ⟨rfl, ht (he ▸ by decide)⟩
        · rintro _ _ ⟨rfl, rfl⟩
          exact ⟨rfl, hstop ⟨by decide, by decide⟩ (he ▸ by decide)⟩
        · rintro _ _ ⟨rfl, rfl⟩
          exact rfl

theorem does_locateItem (hpath : IsPath f.fileName) (mode : Nat) :
    Does env (From ⟨h, b, w⟩ []) (locateItem flags mode n f)
      (fun r c t => (c.handler = h ∧ c.response = w) ∧ Located f n b flags r.1 r.2 (events t))
      fun _ c _ => c.handler = h := by
  refine .ite (fun hn => ?_) fun hn => Action.on_pure ?_
  · refine (does_walkParents henv (k := 0) flags (n - 1)
      (by rw [Nat.zero_add]; exact Nat.sub_lt hn Nat.one_pos) (Trail.start hpath)).bind
      fun r => Action.on_of_states fun c t hc => ?_
    obtain ⟨r, g⟩ := r
    obtain ⟨⟨rfl, rfl⟩, hok, herror⟩ := hc
    cases r with
    | error reply =>
      refine Action.on_pure ?_
      rintro _ _ ⟨rfl, rfl⟩
      exact ⟨⟨rfl, rfl⟩, herror _ _ rfl⟩
    | ok u =>
      obtain ⟨hmessage, htrail⟩ := hok rfl
      rw [Nat.zero_add] at hmessage htrail
      obtain ⟨h, b', w⟩ := c
      obtain rfl : b' = behindNames (n - 1) b := hmessage
      refine Action.On.pre (P := From ⟨h, behindNames (n - 1) b, w⟩ (events t)) (does_name_then fun hstring hname =>
        ?_) ?_
      · refine (does_findItem henv (Nat.sub_add_cancel hn) ⟨hstring, hname⟩ htrail mode createRetryCount f.qid
          _).mono (fun _ _ h => h) ?_ (fun _ _ _ h => h) fun _ _ _ h => h
        rintro r _ u ⟨rfl, hr⟩
        exact ⟨⟨rfl, rfl⟩, hr⟩
      · rintro _ _ ⟨rfl, rfl⟩
        exact ⟨rfl, rfl⟩
  · obtain rfl : n = 0 := Nat.eq_zero_of_not_pos hn
    rintro _ t ⟨rfl, ht⟩
    rw [ht]
    exact ⟨⟨rfl, rfl⟩, .none rfl⟩

theorem does_openItem (item : WOpenItem) (g : File) (c : Context) :
    Does env (From c H) (openItem flags item g)
      (fun g' c' t => c' = c ∧ (g' = g ∧ events t = H ∨ OpenedBy g H g' (events t)))
      fun _ c' _ => c'.handler = c.handler := by
  refine .ite (fun _ => ?_) fun _ => Action.on_pure ?_
  · refine (does_onFile (does_open henv _)).bind fun r => Action.on_pure ?_
    rintro _ t ⟨rfl, hopened⟩
    exact ⟨rfl, Or.inr hopened⟩
  · rintro _ t ⟨rfl, ht⟩
    exact ⟨rfl, Or.inl ⟨rfl, ht⟩⟩

end Steps

/-! ## Answers -/

/-- The first `k` names have been resolved, and not one more. -/
structure Resolved (f : File) (n : Nat) (b : Bytes) (k : Nat) (H : List Event) : Prop where
  le : k ≤ n
  seen : ∀ i, 0 < i → i ≤ k → ∃ st, .seen f.root.rootFd (wopenPath f n b i) st ∈ H
  next : k < n → ∀ st, .seen f.root.rootFd (wopenPath f n b (k + 1)) st ∉ H

/-- The file is the item that the names lead to, the reply is about that item, and it is said to be created if
it was made. -/
structure Denotes (f : File) (n : Nat) (b : Bytes) (mask : Nat) (H : List Event) (status : WOpenStatus)
    (qid : Qid) (stat : StatResult) (g : File) : Prop where
  root : g.root = f.root
  path : g.fileName = wopenPath f n b n
  state : g.state = .closed ∨
    ∃ fd, g.state = .file fd ∧ .opened f.root.rootFd (wopenPath f n b n) fd ∈ H
  qid : qid = g.qid ∧ ∃ st, qid = statToQid st ∧ (.seen f.root.rootFd (wopenPath f n b n) st ∈ H ∨
    ∃ fd, .opened f.root.rootFd (wopenPath f n b n) fd ∈ H ∧ .described fd st ∈ H)
  stat : ∃ st, stat = File.attributes mask st ∧ .seen f.root.rootFd (wopenPath f n b n) st ∈ H
  created : status = .created ↔ .made f.root.rootFd (wopenPath f n b n) ∈ H

theorem Trail.resolved {f g : File} {n k : Nat} {b : Bytes} {H : List Event} (h : Trail f n b k H g)
    (hk : k < n) (hread : Readable b k) (st : Stat) :
    Resolved f n b k (H ++ [.seen g.root.rootFd g.fileName st]) where
  le := Nat.le_of_lt hk
  seen i hpos hle := by
    obtain ⟨st', hseen⟩ := h.seen i hpos hle
    exact ⟨st', List.mem_append_left _ hseen⟩
  next _ st' hmem := by
    have hne {i : Nat} (hi : i ≤ k) : wopenPath f n b i ≠ wopenPath f n b (k + 1) :=
      pathBehind_ne (messageNames_getElem hk b) hread.2 hi
    rcases List.mem_append.mp hmem with hmem | hmem
    · obtain ⟨i, st'', hi, heq⟩ := h.only _ hmem
      simp only [Event.seen.injEq] at heq
      exact hne hi heq.2.1.symm
    · simp only [List.mem_singleton, Event.seen.injEq] at hmem
      exact hne le_rfl (h.path.symm.trans hmem.2.1.symm)

/-- The file is the item, before the reply is made. -/
structure Arrived (f : File) (n : Nat) (b : Bytes) (H : List Event) (status : WOpenStatus) (g : File) : Prop where
  root : g.root = f.root
  path : g.fileName = wopenPath f n b n
  ne_nil : g.fileName ≠ []
  state : g.state = .closed ∨
    ∃ fd, g.state = .file fd ∧ .opened f.root.rootFd (wopenPath f n b n) fd ∈ H
  qid : ∃ st, g.qid = statToQid st ∧ (.seen f.root.rootFd (wopenPath f n b n) st ∈ H ∨
    ∃ fd, .opened f.root.rootFd (wopenPath f n b n) fd ∈ H ∧ .described fd st ∈ H)
  created : status = .created ↔ .made f.root.rootFd (wopenPath f n b n) ∈ H

namespace Arrived

variable {f g g' : File} {n : Nat} {b : Bytes} {H H' : List Event} {status : WOpenStatus}

theorem opened (h : Arrived f n b H status g) (hopen : OpenedBy g H g' H') : Arrived f n b H' status g' := by
  obtain ⟨fd, rfl, rfl | ⟨hname, -⟩⟩ := hopen
  · obtain ⟨st, hqid, hst⟩ := h.qid
    refine ⟨h.root, h.path, h.ne_nil, Or.inr ⟨fd, rfl, ?_⟩, ⟨st, hqid, ?_⟩, h.created.trans ?_⟩
    · rw [← h.root, ← h.path]
      exact List.mem_append_right _ List.mem_cons_self
    · refine hst.imp (List.mem_append_left _) ?_
      rintro ⟨fd', hopened, hdescribed⟩
      exact ⟨fd', List.mem_append_left _ hopened, List.mem_append_left _ hdescribed⟩
    · rw [List.mem_append, List.mem_singleton, or_iff_left (by simp)]
  · exact absurd hname h.ne_nil

theorem denotes (h : Arrived f n b H status g) (mask : Nat) (st : Stat) :
    Denotes f n b mask (H ++ [.seen g.root.rootFd g.fileName st]) status g.qid (File.attributes mask st) g := by
  obtain ⟨st', hqid, hst⟩ := h.qid
  refine ⟨h.root, h.path, h.state.imp_right ?_, ⟨rfl, st', hqid, ?_⟩, ⟨st, rfl, ?_⟩, h.created.trans ?_⟩
  · rintro ⟨fd, hstate, hopened⟩
    exact ⟨fd, hstate, List.mem_append_left _ hopened⟩
  · refine hst.imp (List.mem_append_left _) ?_
    rintro ⟨fd', hopened, hdescribed⟩
    exact ⟨fd', List.mem_append_left _ hopened, List.mem_append_left _ hdescribed⟩
  · rw [h.root, h.path]
    exact List.mem_append_right _ List.mem_cons_self
  · rw [List.mem_append, List.mem_singleton, or_iff_left (by simp)]

end Arrived

theorem wopenPath_ne_nil {f : File} {n k : Nat} {b : Bytes} (hk : k < n) (hread : Readable b k) :
    wopenPath f n b (k + 1) ≠ [] := by
  rw [Trail.wopenPath_succ hk]
  exact appendPath_ne_nil _ hread.2

theorem Trail.arrived {f g : File} {n : Nat} {b : Bytes} {H : List Event} (h : Trail f n b n H g) (hn : 0 < n)
    (hclosed : f.state = .closed) : Arrived f n b H .opened g := by
  obtain ⟨st, hqid, hseen⟩ : ∃ st, g.qid = statToQid st ∧ .seen f.root.rootFd g.fileName st ∈ H := by
    rcases h.qid with ⟨hzero, -⟩ | ⟨-, hst⟩
    · exact absurd hzero (Nat.ne_of_gt hn)
    · exact hst
  obtain ⟨k, rfl⟩ := Nat.exists_eq_succ_of_ne_zero (Nat.ne_of_gt hn)
  refine ⟨h.root, h.path, ?_, Or.inl (h.state.trans hclosed), ⟨st, hqid, Or.inl ?_⟩, ?_⟩
  · rw [h.path]
    exact wopenPath_ne_nil (Nat.lt_succ_self k) (h.readable k (Nat.lt_succ_self k))
  · rwa [← h.path]
  · refine iff_of_false (by decide) fun hmade => ?_
    obtain ⟨i, st', -, heq⟩ := h.only _ hmade
    cases heq

/-! ## Requests that go wrong -/

/-- Without names there is no item, and the file itself is answered as created. -/
structure WithoutItem (h : Handler) (w : MessageResponse) (f : File) (n flags wflags : Nat) : Prop where
  names : n = 0
  type : ¬ (anySet wflags WOpenFlags.nonDirectoryFile ∧ f.qid.isDirectory)
  directory : ¬ (anySet flags OpenFlags.directory ∧ ¬ f.qid.isDirectory)
  delete : anySet wflags WOpenFlags.deleteAccess → f.fileName ≠ []
  link : ¬ (f.qid.isSymlink ∧ ¬ anySet wflags WOpenFlags.openSymlink)
  room : HasRoom h w .wopen (wopenExtra f.qid)

/-- A directory is made, and its parent is answered. -/
structure WithParent (h : Handler) (w : MessageResponse) (f : File) (n : Nat) (b : Bytes) (flags wflags : Nat) :
    Prop where
  names : 0 < n
  readable : ∀ k < n, Readable b k
  create : anySet flags OpenFlags.create
  directory : anySet flags OpenFlags.directory
  parent : f.qid.isDirectory ∨ n = 1 ∧ anySet flags OpenFlags.exclusive
  type : ¬ anySet wflags WOpenFlags.nonDirectoryFile
  delete : anySet wflags WOpenFlags.deleteAccess → n = 1 → f.fileName ≠ []
  room : HasRoom h w .wopen (if n = 1 then wopenExtra f.qid else 0)

/-- What the answer to a request says, for a file at which it starts. -/
def AnsweredFor (h : Handler) (w : MessageResponse) (newFid : Nat) (f : File) (n : Nat) (b : Bytes)
    (flags wflags mask : Nat) (c : Context) (H : List Event) : Prop :=
  ∃ status walked qid link stat, c.response.written = wopenReply status walked qid link stat ∧
    (status.IsStop ∧ c.handler = h ∧ Resolved f n b walked H ∨
      ¬ status.IsStop ∧ h.fids newFid = none ∧ ∃ g, c.handler = h.setFid newFid (some (.file g)) ∧
        (0 < n ∧ Denotes f n b mask H status qid stat g ∨
          WithoutItem h w f n flags wflags ∧ (∀ dir path, .made dir path ∉ H) ∨
          WithParent h w f n b flags wflags))

theorem modeToQidType_cases (mode : Nat) :
    modeToQidType mode = qidSymlink ∨ modeToQidType mode = qidDirectory ∨ modeToQidType mode = 0 := by
  rw [modeToQidType]
  split
  · exact Or.inl rfl
  · split
    · exact Or.inr (Or.inl rfl)
    · exact Or.inr (Or.inr rfl)

theorem not_directory_of_symlink {st : Stat} (h : (statToQid st).isSymlink) : ¬ (statToQid st).isDirectory := by
  simp only [statToQid, Qid.isSymlink, Qid.isDirectory] at h ⊢
  rcases modeToQidType_cases st.mode with hm | hm | hm
  · rw [hm]
    decide
  · rw [hm] at h
    exact absurd h (by decide)
  · rw [hm] at h
    exact absurd h (by decide)

section Finish

variable {env : Surroundings} (henv : ∀ t e, Lawful e (env t e)) {h : Handler} {w : MessageResponse}
  {f g : File} {n : Nat} {b : Bytes} {H : List Event} {flags wflags mask newFid : Nat} {item : WOpenItem}

theorem Located.resolved (hlocated : Located f n b flags (.ok item) g H) (hlink : item.qid.isSymlink)
    (hdirectory : ¬ (anySet flags OpenFlags.directory ∧ ¬ item.qid.isDirectory)) (st : Stat) :
    Resolved f n b n (H ++ [.seen g.root.rootFd g.fileName st]) := by
  cases hlocated with
  | existed hn htrail =>
    refine ⟨le_rfl, fun i hpos hle => ?_, fun hlt => absurd hlt (Nat.lt_irrefl n)⟩
    obtain ⟨st', hseen⟩ := htrail.seen i hpos hle
    exact ⟨st', List.mem_append_left _ hseen⟩
  | @file k H g fd st' hk hread htrail =>
    refine ⟨le_rfl, fun i hpos hle => ?_, fun hlt => absurd hlt (Nat.lt_irrefl n)⟩
    rcases Nat.lt_or_eq_of_le hle with hlt | rfl
    · obtain ⟨st', hseen⟩ := htrail.seen i hpos (by omega)
      exact ⟨st', List.mem_append_left _ (List.mem_append_left _ hseen)⟩
    · refine ⟨st, List.mem_append_right _ ?_⟩
      rw [← htrail.root]
      exact List.mem_cons_self
  | directory hk hread htrail hcreate hflag hparent =>
    exact absurd ⟨hflag, not_directory_of_symlink hlink⟩ hdirectory
  | none hn =>
    exact ⟨le_rfl, fun i hpos hle => by omega, fun hlt => absurd hlt (Nat.lt_irrefl n)⟩

theorem Located.denotes (hlocated : Located f n b flags (.ok item) g H) (hclosed : f.state = .closed)
    (htype : ¬ (anySet wflags WOpenFlags.nonDirectoryFile ∧ item.qid.isDirectory))
    (hdirectory : ¬ (anySet flags OpenFlags.directory ∧ ¬ item.qid.isDirectory))
    (hdelete : anySet wflags WOpenFlags.deleteAccess → g.fileName ≠ [])
    (hlink : ¬ (item.qid.isSymlink ∧ ¬ anySet wflags WOpenFlags.openSymlink)) {g' : File} {H' : List Event}
    (hopened : g' = g ∧ H' = H ∨ OpenedBy g H g' H') (hroom : HasRoom h w .wopen (wopenExtra g'.qid)) (st : Stat) :
    0 < n ∧ Denotes f n b mask (H' ++ [.seen g'.root.rootFd g'.fileName st])
        (if item.existed then .opened else .created) g'.qid (File.attributes mask st) g' ∨
      WithoutItem h w f n flags wflags ∧
        (∀ dir path, .made dir path ∉ H' ++ [.seen g'.root.rootFd g'.fileName st]) ∨
      WithParent h w f n b flags wflags := by
  have harrived (status : WOpenStatus) (h : Arrived f n b H status g) : Arrived f n b H' status g' := by
    rcases hopened with ⟨rfl, rfl⟩ | hopened
    · exact h
    · exact h.opened hopened
  have hqid : g'.qid = g.qid := by
    rcases hopened with ⟨rfl, -⟩ | ⟨fd, rfl, -⟩
    · rfl
    · rfl
  rw [hqid] at hroom
  cases hlocated with
  | existed hn htrail => exact Or.inl ⟨hn, (harrived .opened (htrail.arrived hn hclosed)).denotes mask st⟩
  | @file k H g fd st' hk hread htrail =>
    refine Or.inl ⟨by omega, (harrived .created ⟨htrail.root, rfl, ?_, Or.inr ⟨fd, rfl, ?_⟩,
      ⟨st', rfl, Or.inr ⟨fd, ?_, ?_⟩⟩, iff_of_true rfl ?_⟩).denotes mask st⟩
    · subst hk
      exact wopenPath_ne_nil (Nat.lt_succ_self k) hread
    · exact List.mem_append_right _ (by simp)
    · exact List.mem_append_right _ (by simp)
    · exact List.mem_append_right _ (by simp)
    · exact List.mem_append_right _ (by simp)
  | @directory k H g st' hk hread htrail hcreate hflag hparent =>
    refine Or.inr (Or.inr ⟨by omega, ?_, hcreate, hflag, ?_, ?_, ?_, ?_⟩)
    · intro i hi
      rcases Nat.lt_or_eq_of_le (Nat.le_of_lt_succ (hk ▸ hi)) with hlt | rfl
      · exact htrail.readable i hlt
      · exact hread
    · rcases Nat.eq_zero_or_pos k with rfl | hpos
      · exact hparent.symm.imp_right fun hexclusive => ⟨hk.symm, hexclusive⟩
      · exact Or.inl (htrail.directory hpos)
    · exact fun hnon => htype ⟨hnon, not_not.mp fun hnot => hdirectory ⟨hflag, hnot⟩⟩
    · intro hdel hone
      obtain rfl : k = 0 := by omega
      have hpath : g.fileName = f.fileName := htrail.path
      rw [← hpath]
      exact hdelete hdel
    · split
      · next hone =>
        obtain rfl : k = 0 := by omega
        rcases htrail.qid with ⟨-, rfl⟩ | ⟨hpos, -⟩
        · exact hroom
        · exact absurd hpos (Nat.lt_irrefl 0)
      · exact hroom.mono (Nat.zero_le _)
  | none hn =>
    refine Or.inr (Or.inl ⟨⟨hn, htype, hdirectory, hdelete, hlink, hroom⟩, fun dir path hmade => ?_⟩)
    rcases hopened with ⟨-, rfl⟩ | ⟨fd, -, rfl | ⟨-, rfl⟩⟩
    · simp at hmade
    · simp at hmade
    · simp at hmade

include henv

theorem does_finishItem (hw : w.written = []) (hlocated : Located f n b flags (.ok item) g H)
    (hclosed : f.state = .closed) :
    Does env (fun c t => (c.handler = h ∧ c.response = w) ∧ events t = H)
      (finishItem newFid flags wflags mask n item g)
      (fun _ c t => AnsweredFor h w newFid f n b flags wflags mask c (events t)) fun _ c _ => c.handler = h := by
  have hkept : ∀ (c : Context) (t : Calls.Trace), ((c.handler = h ∧ c.response = w) ∧ events t = H) →
      c.handler = h := fun _ _ hc => hc.1.1
  refine .ite (fun _ => Action.on_throw hkept) fun htype => .ite (fun _ => Action.on_throw hkept) fun hdirectory => ?_
  have hrest (hdelete : anySet wflags WOpenFlags.deleteAccess → g.fileName ≠ []) (k : Op Context Unit)
      (hk : k = if item.qid.isSymlink ∧ ¬ anySet wflags WOpenFlags.openSymlink then
          writeWOpenReply .stopped n g mask
        else do
          let file ← openItem flags item g
          writeWOpenReply (if item.existed then .opened else .created) n file mask
          emplaceFid newFid (.file file)) :
      Does env (fun c t => (c.handler = h ∧ c.response = w) ∧ events t = H) k
        (fun _ c t => AnsweredFor h w newFid f n b flags wflags mask c (events t)) fun _ c _ => c.handler = h := by
    subst hk
    refine .ite (fun hlink => ?_) fun hlink => ?_
    · refine (does_writeWOpenReply henv hw .stopped n g mask).post ?_
      rintro _ c t ⟨hhandler, -, st, link, hwritten, ht⟩
      refine ⟨.stopped, n, g.qid, link, _, hwritten, Or.inl ⟨⟨by decide, by decide⟩, hhandler, ?_⟩⟩
      rw [ht]
      exact hlocated.resolved hlink.1 hdirectory st
    · refine Action.On.bind (V := fun g' c t => (c.handler = h ∧ c.response = w) ∧
        (g' = g ∧ events t = H ∨ OpenedBy g H g' (events t))) ?_ fun g' => ?_
      · intro c t hc
        refine ((does_openItem henv item g c).mono (fun _ _ h => h) ?_ ?_ fun _ _ _ h => h) c t ⟨rfl, hc.2⟩
        · rintro g' _ u ⟨rfl, hopened⟩
          exact ⟨hc.1, hopened⟩
        · exact fun _ _ _ hkeep => hkeep.trans hc.1.1
      refine Action.on_of_states fun c t hc => ?_
      refine ((does_writeWOpenReply henv (h := h) (H := events t) hw _ n g' mask).pre ?_).bind fun _ => ?_
      · rintro _ _ ⟨rfl, rfl⟩
        exact ⟨hc.1, rfl⟩
      rintro c' u ⟨hhandler, hroom, st, link, hwritten, ht⟩
      cases hfid : c'.handler.fids newFid with
      | some old =>
        rw [emplaceFid_taken hfid]
        exact hhandler
      | none =>
        rw [emplaceFid_run hfid]
        refine ⟨_, n, g'.qid, link, _, hwritten, Or.inr ⟨?_, hhandler ▸ hfid, g', ?_, ?_⟩⟩
        · split <;> exact fun hstop => by first | exact hstop.1 rfl | exact hstop.2 rfl
        · exact congrArg (fun h : Handler => h.setFid newFid (some (.file g'))) hhandler
        · change 0 < n ∧ Denotes f n b mask (events u) _ _ _ _ ∨ _ ∧ (∀ dir path, .made dir path ∉ events u) ∨ _
          rw [ht]
          exact hlocated.denotes hclosed htype hdirectory hdelete hlink hc.2 hroom st
  by_cases hdelete : anySet wflags WOpenFlags.deleteAccess
  · rw [if_pos hdelete]
    refine Action.On.bind (V := fun _ c t => g.fileName ≠ [] ∧ (c.handler = h ∧ c.response = w) ∧ events t = H)
      ?_ fun _ => ?_
    · intro c t hc
      refine ((does_access_delete henv c).mono (fun _ _ h => h) ?_ ?_ fun _ _ _ h => h) c t ⟨rfl, hc.2⟩
      · rintro _ _ u ⟨rfl, hname, hu⟩
        exact ⟨hname, hc.1, hu⟩
      · rintro _ _ u rfl
        exact hc.1.1
    · rintro c t ⟨hname, hc⟩
      exact hrest (fun _ => hname) _ rfl c t hc
  · rw [if_neg hdelete]
    exact hrest (fun h => absurd h hdelete) _ rfl

end Finish

/-! ## Requests -/

namespace WOpen

/-! ### The fields of a request -/

section Fields

variable (b : Bytes)

def fid : Nat := leAt 0 4 b
def newFid : Nat := leAt 4 4 b
def flags : Nat := leAt 8 4 b
def wflags : Nat := leAt 12 4 b
def mode : Nat := leAt 16 4 b
def mask : Nat := leAt 24 8 b
def nameCount : Nat := leAt 32 2 b
def names : Bytes := b.drop 34

end Fields

/-- What a request promises of its answer and of the fids behind it. A new fid denotes the item that all
names lead to, and with any other status the fids are as they were. -/
def Upholds (h : Handler) (b : Bytes) (c : Context) (H : List Event) : Prop :=
  ∃ f status walked qid link stat, h.fids (fid b) = some (.file f) ∧
    c.response.written = wopenReply status walked qid link stat ∧
    (status.IsStop → c.handler.fids = h.fids ∧ Resolved f.clone (nameCount b) (names b) walked H) ∧
    (¬ status.IsStop → ∃ g, c.handler.fids = Function.update h.fids (newFid b) (some (.file g)) ∧
      Denotes f.clone (nameCount b) (names b) (mask b) H status qid stat g)

/-- The request goes wrong wherever nothing fails. -/
def GoesWrong (h : Handler) (b : Bytes) (w : MessageResponse) : Prop :=
  h.use9P2000W ∧ 34 ≤ b.length ∧ h.fids (newFid b) = none ∧ ∃ f, h.fids (fid b) = some (.file f) ∧
    (WithoutItem h w f.clone (nameCount b) (flags b) (wflags b) ∨
      WithParent h w f.clone (nameCount b) (names b) (flags b) (wflags b))

variable {env : Surroundings} {h : Handler} {b : Bytes} {w : MessageResponse}

theorem does_handleWOpen (henv : ∀ t e, Lawful e (env t e)) (hw : w.written = [])
    (hpath : ∀ f, h.fids (fid b) = some (.file f) → IsPath f.fileName) :
    Does env (From ⟨h, b, w⟩ []) handleWOpen (fun _ c t => (h.use9P2000W ∧ 34 ≤ b.length) ∧
      ∃ f, h.fids (fid b) = some (.file f) ∧ AnsweredFor h w (newFid b) f.clone (nameCount b) (names b)
        (flags b) (wflags b) (mask b) c (events t)) fun _ c _ => c.handler = h := by
  refine .get_then fun c => Action.on_of_states fun c' t hc => ?_
  obtain ⟨rfl, rfl, ht⟩ := hc
  refine .ite (fun _ => Action.on_throw ?_) fun huse => ?_
  · rintro _ _ ⟨rfl, -⟩
    exact rfl
  refine Action.On.pre (P := From ⟨h, b, w⟩ []) ?_ ?_
  · refine does_uint_then fun _ => does_uint_then fun _ => does_uint_then fun _ => does_uint_then fun _ => ?_
    refine does_uint_then fun _ => does_uint_then fun _ => does_uint_then fun _ => does_uint_then fun hlength => ?_
    simp only [leAt_drop, List.drop_drop, List.length_drop] at hlength ⊢
    refine does_lookupFile_then fun f hf => ?_
    have hwhole : h.use9P2000W ∧ 34 ≤ b.length := ⟨not_not.mp huse, by omega⟩
    refine (does_locateItem henv (f := f.clone) (hpath f hf) (leAt 16 4 b)).bind fun r =>
      Action.on_of_states fun c t hc => ?_
    obtain ⟨r, g⟩ := r
    obtain ⟨hkept, hlocated⟩ := hc
    have hstart : ∀ (c' : Context) (t' : Calls.Trace), c' = c ∧ t' = t →
        (c'.handler = h ∧ c'.response = w) ∧ events t' = events t := by
      rintro _ _ ⟨rfl, rfl⟩
      exact ⟨hkept, rfl⟩
    cases r with
    | error reply =>
      obtain ⟨status, k⟩ := reply
      refine (does_writeWOpenReply henv hw status k g (leAt 24 8 b)).mono hstart ?_ (fun _ _ _ h => h)
        fun _ _ _ h => h
      rintro _ c' t' ⟨hhandler, -, st, link, hwritten, ht'⟩
      obtain ⟨hstatus, hk, hread, htrail⟩ : status.IsStop ∧ k < leAt 32 2 b ∧ Readable (b.drop 34) k ∧
          Trail f.clone (leAt 32 2 b) (b.drop 34) k (events t) g := by
        cases hlocated with
        | stopped hstatus hk hread htrail => exact ⟨hstatus, hk, hread, htrail⟩
      refine ⟨hwhole, f, hf, status, k, g.qid, link, _, hwritten, Or.inl ⟨hstatus, hhandler, ?_⟩⟩
      rw [ht']
      exact htrail.resolved hk hread st
    | ok item =>
      exact (does_finishItem henv hw hlocated rfl).mono hstart (fun _ _ _ h => ⟨hwhole, f, hf, h⟩)
        (fun _ _ _ h => h) fun _ _ _ h => h
  · rintro _ _ ⟨rfl, rfl⟩
    exact ⟨rfl, ht⟩

theorem upholds_of_not_goesWrong (henv : ∀ t e, Lawful e (env t e)) (hw : w.written = [])
    (hpath : ∀ f, h.fids (fid b) = some (.file f) → IsPath f.fileName) (hright : ¬ GoesWrong h b w) :
    Action.EndsOn (fun _ c t => Upholds h b c (events t)) (fun _ c _ => c.handler.fids = h.fids)
      (fun _ _ _ => True) ((handleWOpen ⟨h, b, w⟩).interpret (Program.recording env) []) := by
  refine ((does_handleWOpen henv hw hpath).mono (fun _ _ h => h) ?_ ?_ fun _ _ _ h => h) _ _ ⟨rfl, rfl⟩
  · rintro _ c t ⟨⟨huse, hlength⟩, f, hf, status, walked, qid, link, stat, hwritten, hcase⟩
    refine ⟨f, status, walked, qid, link, stat, hf, hwritten, ?_, ?_⟩
    · intro hstop
      rcases hcase with ⟨-, hhandler, hresolved⟩ | ⟨hstop', -⟩
      · exact ⟨congrArg Handler.fids hhandler, hresolved⟩
      · exact absurd hstop hstop'
    · intro hstop
      rcases hcase with ⟨hstop', -⟩ | ⟨-, hfree, g, hhandler, ⟨-, hdenotes⟩ | hwrong⟩
      · exact absurd hstop' hstop
      · exact ⟨g, congrArg Handler.fids hhandler, hdenotes⟩
      · exact absurd ⟨huse, hlength, hfree, f, hf, hwrong.imp_left And.left⟩ hright
  · rintro _ c _ hkept
    exact congrArg Handler.fids hkept

end WOpen

end WslFreeBSD.Plan9
