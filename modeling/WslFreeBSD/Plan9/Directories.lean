import WslFreeBSD.Lib.Systems
import WslFreeBSD.Plan9.Spans
import WslFreeBSD.Plan9.WorkingRuns

/-!
# Reading directories

A directory that does not change is a list of entries with cookies, and a stream of it has a position
in the list. `File.ReadDir` remembers where its stream stands, by the cookie of the entry before, and only
moves it when it stands elsewhere. `Placed` says that what it remembers is right. Each request leaves it so,
also one that fails because the next entry does not fit: the stream has moved over that entry, and the
cookie of that entry is remembered.

What a request returns depends then on its offset alone (`Page`), and a client that follows the cookies
sees each entry once (`Scan.flatten`).
-/

namespace WslFreeBSD.Plan9

open Lib

def Dirent.onWire (e : Dirent) : Spans.DirectoryEntry :=
  ⟨⟨e.ino, 0, File.dirEntryTypeToQidType e.type⟩, e.off, e.type, e.name.val⟩

/-- The entries of a directory. -/
structure Listing where
  entries : List Dirent
  distinct : (entries.map Dirent.off).Nodup
  nonzero : ∀ e ∈ entries, e.off ≠ 0
  inRange : ∀ e ∈ entries, Spans.EntryInRange e.onWire

namespace Listing

/-- Where a stream stands behind the entry with a cookie; the cookie 0 stands for the start. -/
def IsPosition (d : Listing) (offset k : Nat) : Prop :=
  offset = 0 ∧ k = 0 ∨ ∃ j e, d.entries[j]? = some e ∧ e.off = offset ∧ k = j + 1

variable {d : Listing} {offset k k' : Nat}

theorem IsPosition.unique (h : d.IsPosition offset k) (h' : d.IsPosition offset k') : k = k' := by
  have hzero {j : Nat} {e : Dirent} (he : d.entries[j]? = some e) : e.off ≠ 0 :=
    d.nonzero e (List.mem_of_getElem? he)
  rcases h with ⟨rfl, rfl⟩ | ⟨j, e, he, rfl, rfl⟩
  · rcases h' with ⟨-, rfl⟩ | ⟨j', e', he', hoff, -⟩
    · rfl
    · exact absurd hoff (hzero he')
  · rcases h' with ⟨hoff, -⟩ | ⟨j', e', he', hoff, rfl⟩
    · exact absurd hoff (hzero he)
    · have hj : (d.entries.map Dirent.off)[j]? = some e.off := by rw [List.getElem?_map, he, Option.map_some]
      have hj' : (d.entries.map Dirent.off)[j']? = some e.off := by
        rw [List.getElem?_map, he', Option.map_some, hoff]
      have hlt := (List.getElem?_eq_some_iff.mp hj).1
      rw [(List.getElem?_inj hlt d.distinct).mp (hj.trans hj'.symm)]

def after (d : Listing) (offset : Nat) : List Dirent :=
  if offset = 0 then d.entries else (d.entries.dropWhile fun e => e.off ≠ offset).tail

def IsCookie (d : Listing) (offset : Nat) : Prop := offset = 0 ∨ offset ∈ d.entries.map Dirent.off

theorem IsCookie.position (h : d.IsCookie offset) :
    ∃ k, d.IsPosition offset k ∧ d.after offset = d.entries.drop k := by
  by_cases hzero : offset = 0
  · exact ⟨0, Or.inl ⟨hzero, rfl⟩, if_pos hzero⟩
  · obtain ⟨e, he, rfl⟩ := List.mem_map.mp (h.resolve_left hzero)
    obtain ⟨before, rest, hsplit⟩ := List.append_of_mem he
    have hfront : ∀ e' ∈ before, e'.off ≠ e.off := by
      have hdistinct := d.distinct
      rw [hsplit, List.map_append, List.map_cons] at hdistinct
      intro e' he' hsame
      exact (List.nodup_append.mp hdistinct).2.2 _ (List.mem_map_of_mem he') _ List.mem_cons_self hsame
    have hget : d.entries[before.length]? = some e := by
      rw [hsplit, List.getElem?_append_right le_rfl, Nat.sub_self]
      rfl
    refine ⟨before.length + 1, Or.inr ⟨before.length, e, hget, rfl, rfl⟩, ?_⟩
    rw [after, if_neg hzero, hsplit, List.dropWhile_append_of_pos fun e' he' => decide_eq_true (hfront e' he'),
      List.dropWhile_cons_of_neg (by simp), ← List.drop_drop, List.drop_left]
    rfl

theorem isPosition_zero (d : Listing) : d.IsPosition 0 0 := Or.inl ⟨rfl, rfl⟩

theorem isPosition_of_getElem {j : Nat} {e : Dirent} (he : d.entries[j]? = some e) :
    d.IsPosition e.off (j + 1) := Or.inr ⟨j, e, he, rfl, rfl⟩

end Listing

/-- A system with a stream of a directory: how the calls move the stream, and which entries they return.
Nothing is assumed of the other answers, and the other calls of the server leave the stream alone. -/
structure DirStream (d : Listing) (fd : Nat) (ω : Type) where
  step : (e : Syscall) → ω → e.Answer × ω
  position : ω → Nat
  readdir_entry : ∀ w e, d.entries[position w]? = some e →
    (step (.readdir fd) w).1 = .ok (some e) ∧ position (step (.readdir fd) w).2 = position w + 1
  readdir_end : ∀ w, d.entries[position w]? = none →
    (step (.readdir fd) w).1 = .ok none ∧ position (step (.readdir fd) w).2 = position w
  rewinddir : ∀ w, position (step (.rewinddir fd) w).2 = 0
  seekdir : ∀ w j e, d.entries[j]? = some e → position (step (.seekdir fd e.off) w).2 = j + 1
  fdopendir : ∀ w, position (step (.fdopendir fd) w).2 = position w
  fstatat : ∀ w name, position (step (.fstatat fd name false) w).2 = position w

/-! ## Pages -/

def entrySize (includeAttributes : Bool) (e : Dirent) : Nat :=
  qidSize + 8 + 1 + 2 + e.name.val.length + if includeAttributes then statResultSize else 0

/-- Entries with their attributes, if these are asked for. -/
abbrev Listed := List (Dirent × Option StatResult)

def Listed.bytes (items : Listed) : Bytes := items.flatMap fun i => File.directoryEntryBytes i.1 i.2

/-- The data is the longest prefix of some entries that fits in the room. -/
def Fills (includeAttributes : Bool) (entries : List Dirent) (room : Nat) (data : Bytes) (items : Listed) :
    Prop :=
  ∃ rest, entries = items.map Prod.fst ++ rest ∧ (∀ i ∈ items, i.2.isSome = includeAttributes) ∧
    data = items.bytes ∧ data.length ≤ room ∧
    ∀ e ∈ rest.head?, room < data.length + entrySize includeAttributes e

/-- What a reply shows of some entries: it is only empty if there are none. -/
def Page (includeAttributes : Bool) (entries : List Dirent) (count : Nat) (data : Bytes)
    (shown : List Dirent) : Prop :=
  ∃ items : Listed, shown = items.map Prod.fst ∧ Fills includeAttributes entries count data items ∧
    (shown = [] → entries = [])

section Fills

variable {includeAttributes : Bool} {e : Dirent} {entries : List Dirent} {attributes : Option StatResult}
  {room : Nat} {data : Bytes} {items : Listed}

theorem length_directoryEntryBytes
    (h : attributes.isSome = includeAttributes) :
    (File.directoryEntryBytes e attributes).length = entrySize includeAttributes e := by
  subst h
  cases attributes <;> simp [File.directoryEntryBytes, entrySize] <;> omega

theorem fills_none : Fills includeAttributes [] room [] [] :=
  ⟨[], rfl, fun _ h => absurd h List.not_mem_nil, rfl, Nat.zero_le _, fun _ h => by cases h⟩

theorem fills_stop (h : room < entrySize includeAttributes e) :
    Fills includeAttributes (e :: entries) room [] [] := by
  refine ⟨e :: entries, rfl, fun _ h => absurd h List.not_mem_nil, rfl, Nat.zero_le _, fun e' he => ?_⟩
  cases he
  rwa [List.length_nil, Nat.zero_add]

theorem Fills.cons (ha : attributes.isSome = includeAttributes)
    (hle : (File.directoryEntryBytes e attributes).length ≤ room)
    (h : Fills includeAttributes entries (room - (File.directoryEntryBytes e attributes).length) data items) :
    Fills includeAttributes (e :: entries) room (File.directoryEntryBytes e attributes ++ data)
      ((e, attributes) :: items) := by
  obtain ⟨rest, rfl, hall, rfl, hlength, hnext⟩ := h
  refine ⟨rest, rfl, List.forall_mem_cons.mpr ⟨ha, hall⟩, rfl, ?_, fun e' he => ?_⟩
  · rw [List.length_append]
    omega
  · have := hnext e' he
    rw [List.length_append]
    omega

end Fills

/-! ## Files -/

section Files

variable {d : Listing} {fd : Nat} {ω : Type} (sys : DirStream d fd ω)

/-- The file is read as a directory, and its stream stands where it remembers. -/
def Enumerating (f : File) (w : ω) : Prop :=
  ∃ offset, f.state = .enumerator fd offset ∧ d.IsPosition offset (sys.position w)

/-- The file is open, and its stream stands at the start or where it remembers. -/
def Placed (f : File) (w : ω) : Prop :=
  f.state = .file fd ∧ sys.position w = 0 ∨ Enumerating sys f w

abbrev NoHalt (σ : Type) : Halt → σ → ω → Prop := fun _ _ _ => False

theorem on_enumerate :
    Action.On sys.step (Placed sys) File.enumerate (fun fd' f w => fd' = fd ∧ Enumerating sys f w)
      (fun _ => Placed sys) (NoHalt File) := by
  refine .get_then fun f => Action.on_of_states fun f' w hf => ?_
  obtain ⟨rfl, hplaced⟩ := hf
  rcases hplaced with ⟨hstate, hstart⟩ | ⟨offset, hstate, hposition⟩
  · rw [hstate]
    have hopen : Action.On sys.step (fun f w' => f = f' ∧ w' = w)
        (Action.embed (do orThrow (← Action.call (.fdopendir fd))) : Op File Unit)
        (fun _ f w' => f = f' ∧ sys.position w' = 0) (fun _ => Placed sys) (NoHalt File) := by
      refine .embed fun f w' hf => ?_
      obtain ⟨rfl, rfl⟩ := hf
      have hkeep := (sys.fdopendir w').trans hstart
      refine (Action.on_call (V := fun _ _ w'' => sys.position w'' = 0) fun _ w'' hw => ?_).bind fun r => ?_
      · rw [hw]
        exact hkeep
      · cases r with
        | ok u => exact Action.on_pure fun _ _ hw => ⟨rfl, hw⟩
        | error e => exact Action.on_throw fun _ _ hw => Or.inl ⟨hstate, hw⟩
    refine hopen.bind fun _ => .modify_then (Q := Enumerating sys) ?_
      (Action.on_pure fun (f : File) (w : ω) (h : Enumerating sys f w) => ⟨rfl, h⟩)
    rintro _ w' ⟨rfl, hw'⟩
    exact ⟨0, rfl, Or.inl ⟨rfl, hw'⟩⟩
  · rw [hstate]
    refine Action.on_pure fun _ _ hf => ?_
    obtain ⟨rfl, rfl⟩ := hf
    exact ⟨rfl, offset, hstate, hposition⟩

/-- Behind `Seek` the stream stands at the offset. -/
theorem on_seek {offset k : Nat} (hoffset : d.IsPosition offset k) :
    Action.On sys.step (Enumerating sys) (File.seek fd offset)
      (fun _ f w => f.state = .enumerator fd offset ∧ sys.position w = k) (fun _ => Placed sys)
      (NoHalt File) := by
  refine .get_then fun f => .ite (fun _ => ?_) fun hsame => ?_
  · have hmoved (u : Unit) : Action.On sys.step (fun _ w => sys.position w = k)
        (Action.modify fun f => { f with state := .enumerator fd offset } : Op File Unit)
        (fun _ f w => f.state = .enumerator fd offset ∧ sys.position w = k) (fun _ => Placed sys)
        (NoHalt File) := Action.on_modify fun _ _ hw => ⟨rfl, hw⟩
    refine .ite (fun hzero => ?_) fun hzero => ?_
    · refine (Action.on_call fun f' w _ => ?_).bind hmoved
      rw [sys.rewinddir]
      exact d.isPosition_zero.unique (hzero ▸ hoffset)
    · refine (Action.on_call fun f' w _ => ?_).bind hmoved
      rcases hoffset with ⟨h, -⟩ | ⟨j, e, he, rfl, rfl⟩
      · exact absurd h hzero
      · exact sys.seekdir w j e he
  · refine Action.on_pure ?_
    rintro _ w ⟨rfl, last, hstate, hposition⟩
    rw [File.lastOffset, hstate] at hsame
    obtain rfl : offset = last := not_not.mp hsame
    exact ⟨hstate, hposition.unique hoffset⟩

/-- `Next` returns the entry at the position, and remembers that it has been passed. -/
theorem on_next (k : Nat) :
    Action.On sys.step (fun f w => Enumerating sys f w ∧ sys.position w = k) (File.next fd)
      (fun r f w => r = d.entries[k]? ∧ Enumerating sys f w ∧
        sys.position w = if r.isSome then k + 1 else k) (fun _ => Placed sys) (NoHalt File) := by
  refine Action.on_of_states fun f w hf => ?_
  obtain ⟨⟨offset, hstate, hposition⟩, rfl⟩ := hf
  have hread : Action.On sys.step (fun f' w' => f' = f ∧ w' = w)
      (Action.embed (do orThrow (← Action.call (.readdir fd))) : Op File (Option Dirent))
      (fun r f' w' => f' = f ∧ r = d.entries[sys.position w]? ∧
        sys.position w' = if r.isSome then sys.position w + 1 else sys.position w)
      (fun _ => Placed sys) (NoHalt File) := by
    refine .embed fun f' w' hf' => ?_
    obtain ⟨rfl, rfl⟩ := hf'
    refine (Action.on_call (V := fun r _ w'' => r = .ok d.entries[sys.position w']? ∧
      sys.position w'' = if d.entries[sys.position w']?.isSome then sys.position w' + 1
        else sys.position w') fun _ w'' hw => ?_).bind fun r => ?_
    · rw [hw]
      cases he : d.entries[sys.position w']? with
      | none => exact sys.readdir_end w' he
      | some e => exact sys.readdir_entry w' e he
    · cases r with
      | ok r =>
        refine Action.on_pure fun _ _ hw => ?_
        obtain ⟨hr, hw⟩ := hw
        cases hr
        exact ⟨rfl, rfl, hw⟩
      | error e => exact Action.on_throw fun _ _ hw => by cases hw.1
  refine hread.bind fun r => ?_
  cases r with
  | none =>
    refine Action.on_pure ?_
    rintro _ w' ⟨rfl, hr, hw'⟩
    exact ⟨hr, ⟨offset, hstate, hw' ▸ hposition⟩, hw'⟩
  | some e =>
    refine .modify_then (Q := fun f' w' => some e = d.entries[sys.position w]? ∧ Enumerating sys f' w' ∧
      sys.position w' = sys.position w + 1) ?_ (Action.on_pure fun _ _ h => h)
    rintro _ w' ⟨rfl, hr, hw'⟩
    have hw'' : sys.position w' = sys.position w + 1 := hw'
    refine ⟨hr, ⟨e.off, rfl, ?_⟩, hw''⟩
    rw [hw'']
    exact d.isPosition_of_getElem hr.symm

theorem on_entryAttributes (entry : Dirent) {P : File → ω → Prop}
    (hP : ∀ f w w', P f w → sys.position w' = sys.position w → P f w') :
    Action.On sys.step P (Action.embed (some <$> File.entryAttributes fd entry) : Op File (Option StatResult))
      (fun r f w => r.isSome = true ∧ P f w) (fun _ => Placed sys) (NoHalt File) := by
  refine .embed fun f w hf => ?_
  have hstat : Action.On sys.step (fun _ w' => w' = w) (File.entryAttributes fd entry)
      (fun _ _ w' => P f w') (fun _ _ w' => Placed sys f w') fun x _ _ => x.elim := by
    refine (Action.on_call (V := fun _ _ w' => P f w') fun _ w' hw => ?_).bind fun r => ?_
    · rw [hw]
      exact hP f w _ hf (sys.fstatat w _)
    · cases r with
      | ok st => exact Action.on_pure fun _ _ h => h
      | error e => exact Action.on_pure fun _ _ h => h
  exact hstat.bind fun a => Action.on_pure fun _ _ h => ⟨rfl, h⟩

/-- The loop of `ReadDir`, by induction on the room that is left. -/
theorem on_readEntries (includeAttributes : Bool) (room k : Nat) (written : Bool) :
    Action.On sys.step (fun f w => Enumerating sys f w ∧ sys.position w = k)
      (File.readEntries fd includeAttributes room written)
      (fun data f w => Enumerating sys f w ∧ ∃ items, Fills includeAttributes (d.entries.drop k) room data items ∧
        (written = false → items = [] → d.entries.drop k = []))
      (fun _ => Placed sys) (NoHalt File) := by
  induction room using Nat.strong_induction_on generalizing k written with
  | _ room ih =>
    rw [File.readEntries]
    refine (on_next sys k).bind fun r => ?_
    cases r with
    | none =>
      refine Action.on_pure fun f w hf => ?_
      rw [List.drop_eq_nil_of_le (List.getElem?_eq_none_iff.mp hf.1.symm)]
      exact ⟨hf.2.1, [], fills_none, fun _ _ => rfl⟩
    | some entry =>
      have hrest (a : Option StatResult) :
          Action.On sys.step (fun f w => a.isSome = includeAttributes ∧
              some entry = d.entries[k]? ∧ Enumerating sys f w ∧ sys.position w = k + 1)
            (if (File.directoryEntryBytes entry a).length ≤ room then do
                let more ← File.readEntries fd includeAttributes
                  (room - (File.directoryEntryBytes entry a).length) true
                return File.directoryEntryBytes entry a ++ more
              else if written then return [] else Action.throw einval)
            (fun data f w => Enumerating sys f w ∧
              ∃ items, Fills includeAttributes (d.entries.drop k) room data items ∧
                (written = false → items = [] → d.entries.drop k = []))
            (fun _ => Placed sys) (NoHalt File) := by
        refine Action.on_of_states fun f w hf => ?_
        obtain ⟨hattributes, hentry, henum, hw⟩ := hf
        have hdrop : d.entries.drop k = entry :: d.entries.drop (k + 1) := by
          obtain ⟨hlt, hget⟩ := List.getElem?_eq_some_iff.mp hentry.symm
          rw [List.drop_eq_getElem_cons hlt, hget]
        rw [hdrop]
        refine .ite (fun hfits => ?_) fun hfits => .ite (fun hwritten => ?_) fun _ => ?_
        · have hpos := File.length_directoryEntryBytes_pos entry a
          refine ((ih _ (by omega) (k + 1) true).pre fun f' w' h => ?_).bind fun data => Action.on_pure ?_
          · obtain ⟨rfl, rfl⟩ := h
            exact ⟨henum, hw⟩
          · rintro f' w' ⟨henum', items, hfills, -⟩
            exact ⟨henum', (entry, a) :: items, hfills.cons hattributes hfits, fun _ h => (by cases h)⟩
        · refine Action.on_pure fun f' w' h => ?_
          obtain ⟨rfl, rfl⟩ := h
          refine ⟨henum, [], fills_stop ?_, fun h => ?_⟩
          · rw [← length_directoryEntryBytes hattributes]
            exact Nat.lt_of_not_le hfits
          · rw [hwritten] at h
            cases h
        · refine Action.on_throw fun f' w' h => ?_
          obtain ⟨rfl, rfl⟩ := h
          exact Or.inr henum
      have hkeep (f : File) (w w' : ω) (h : some entry = d.entries[k]? ∧ Enumerating sys f w ∧
          sys.position w = k + 1) (hsame : sys.position w' = sys.position w) :
          some entry = d.entries[k]? ∧ Enumerating sys f w' ∧ sys.position w' = k + 1 := by
        obtain ⟨hentry, ⟨offset, hstate, hposition⟩, hw⟩ := h
        exact ⟨hentry, ⟨offset, hstate, hsame ▸ hposition⟩, hsame.trans hw⟩
      refine .ite (fun hincl => ?_) fun hincl => ?_
      · refine (on_entryAttributes sys entry hkeep).bind fun a => (hrest a).pre fun f w h => ?_
        exact ⟨h.1.trans hincl.symm, h.2⟩
      · refine Action.On.bind (V := fun a f w => a = none ∧ some entry = d.entries[k]? ∧
          Enumerating sys f w ∧ sys.position w = k + 1) (Action.on_pure fun f w h => ⟨rfl, h⟩) fun a =>
            (hrest a).pre fun f w h => ?_
        rw [h.1]
        exact ⟨(Bool.eq_false_iff.mpr hincl).symm, h.2⟩

/-- `ReadDir` returns the page behind an offset, and leaves the stream where it remembers. -/
theorem on_readDir {offset k : Nat} (hoffset : d.IsPosition offset k) (count : Nat)
    (includeAttributes : Bool) :
    Action.On sys.step (Placed sys) (File.readDir offset count includeAttributes)
      (fun data f w => Placed sys f w ∧ ∃ shown, Page includeAttributes (d.entries.drop k) count data shown)
      (fun _ => Placed sys) (NoHalt File) := by
  refine (on_enumerate sys).bind fun fd' => Action.on_of_states fun f w hf => ?_
  obtain ⟨rfl, henum⟩ := hf
  refine ((on_seek sys hoffset).pre fun f' w' h => ?_).bind fun _ => ?_
  · obtain ⟨rfl, rfl⟩ := h
    exact henum
  refine ((on_readEntries sys includeAttributes count k false).pre fun f' w' h => ?_).post ?_
  · exact ⟨⟨offset, h.1, h.2 ▸ hoffset⟩, h.2⟩
  · rintro data f' w' ⟨henum', items, hfills, hstart⟩
    exact ⟨Or.inr henum', items.map Prod.fst, items, rfl, hfills,
      fun hnone => hstart rfl (List.map_eq_nil_iff.mp hnone)⟩

end Files

/-! ## Requests -/

section Requests

variable {d : Listing} {fd : Nat} {ω : Type} (sys : DirStream d fd ω) {fid : Nat}

/-- The fid denotes an open file whose stream stands where it remembers. -/
def Reading (fid : Nat) (h : Handler) (w : ω) : Prop := ∃ f, h.fids fid = some (.file f) ∧ Placed sys f w

theorem on_onFid {h : Handler} {f : File} {b : Bytes} {response : MessageResponse} {w : ω} {α : Type}
    {m : Op File α} {V : α → Prop} (hplaced : Placed sys f w)
    (hm : Action.On sys.step (Placed sys) m (fun a f w => Placed sys f w ∧ V a) (fun _ => Placed sys)
      (NoHalt File)) :
    Action.On sys.step (fun c w' => c = ⟨h, b, response⟩ ∧ w' = w) (onFid fid (.file f) (Fid.onFile m))
      (fun a c w' => Reading sys fid c.handler w' ∧ c.message = b ∧ c.response = response ∧ V a)
      (fun _ c w' => Reading sys fid c.handler w') (NoHalt Context) := by
  have hset (g : File) : (h.setFid fid (some (.file g))).fids fid = some (.file g) := Function.update_self ..
  refine .zoom fun c w' hc => ?_
  obtain ⟨rfl, rfl⟩ := hc
  refine .get_then fun item => Action.on_of_states fun item' w' hitem => ?_
  obtain ⟨rfl, rfl, rfl⟩ := hitem
  refine .zoom fun item w'' hitem => ?_
  obtain ⟨rfl, rfl⟩ := hitem
  refine hm.mono ?_ ?_ ?_ fun _ _ _ h => h
  · rintro g w' ⟨rfl, rfl⟩
    exact hplaced
  · exact fun a g w' hg => ⟨⟨g, hset g, hg.1⟩, rfl, rfl, hg.2⟩
  · exact fun e g w' hg => ⟨g, hset g, hg⟩

theorem on_ensureSize (step : (e : Syscall) → ω → e.Answer × ω) {t : MessageType} (extra : Nat)
    {c : Context} {w : ω} {H : Halt → Context → ω → Prop} (hempty : c.response.written = []) :
    Action.On step (fun c' w' => c' = c ∧ w' = w) (ensureSize t extra)
      (fun _ c' w' => w' = w ∧ c'.handler = c.handler ∧ c'.message = c.message ∧
        c'.response.written = [] ∧ getMessageSize t + extra ≤ c'.response.size)
      (fun _ c' w' => c' = c ∧ w' = w) H := by
  refine .get_then fun c' => Action.on_of_states fun c'' w' hc => ?_
  obtain ⟨rfl, rfl, rfl⟩ := hc
  refine .ite (fun _ => Action.on_throw fun _ _ h => h) fun _ => ?_
  refine .ite (fun _ => .ite (fun _ => Action.on_throw fun _ _ h => h) fun _ => ?_) fun hsize => ?_
  · refine Action.on_modify ?_
    rintro _ _ ⟨rfl, rfl⟩
    exact ⟨rfl, rfl, rfl, rfl, le_rfl⟩
  · refine Action.on_pure ?_
    rintro _ _ ⟨rfl, rfl⟩
    exact ⟨rfl, rfl, rfl, hempty, Nat.not_lt.mp hsize⟩

theorem on_handleReadDir {h : Handler} {b : Bytes} {response : MessageResponse} {w : ω} {k : Nat}
    (hb : holds (requestFields .readdir) b) (hfid : leAt 0 4 b = fid) (hreading : Reading sys fid h w)
    (hoffset : d.IsPosition (leAt 4 8 b) k) (hempty : response.written = []) (includeAttributes : Bool) :
    Action.On sys.step (fun c w' => c = ⟨h, b, response⟩ ∧ w' = w) (handleReadDir includeAttributes)
      (fun _ c w' => Reading sys fid c.handler w' ∧ ∃ data shown,
        Page includeAttributes (d.entries.drop k) (leAt 12 4 b) data shown ∧
        c.response.written = leBytes 4 data.length ++ data)
      (fun _ c w' => Reading sys fid c.handler w') (NoHalt Context) := by
  obtain ⟨f, hf, hplaced⟩ := hreading
  obtain ⟨hfield, hb'⟩ := holds_int.mp hb
  obtain ⟨hfield', hb''⟩ := holds_int.mp hb'
  obtain ⟨hfield'', -⟩ := holds_int.mp hb''
  rw [List.drop_drop] at hfield''
  refine .get_then fun c => Action.on_of_states fun c' w' hc => ?_
  obtain ⟨rfl, rfl, rfl⟩ := hc
  refine .ite (fun _ => Action.on_throw ?_) fun _ => ?_
  · rintro _ _ ⟨rfl, rfl⟩
    exact ⟨f, hf, hplaced⟩
  rintro _ w₀ ⟨rfl, rfl⟩
  rw [Action.bind_of_value (uint_run hfield), Action.bind_of_value (uint_run hfield'), List.drop_drop,
    Action.bind_of_value (uint_run hfield''), Action.bind_of_value (lookupFid_run (hfid.symm ▸ hf)),
    leAt_drop, leAt_drop, hfid, List.drop_drop]
  have hensure := on_ensureSize sys.step (leAt 12 4 b) (w := w₀) (t := .readdir)
    (c := ⟨h, b.drop 16, response⟩) (H := NoHalt Context) hempty
  refine (hensure.mono (fun _ _ h => h) (fun _ _ _ h => h) ?_ fun _ _ _ h => h).bind (fun _ => ?_) _ _
    ⟨rfl, rfl⟩
  · rintro _ _ _ ⟨rfl, rfl⟩
    exact ⟨f, hf, hplaced⟩
  refine Action.on_of_states fun c w'' hc => ?_
  obtain ⟨h'', b'', response'⟩ := c
  dsimp only at hc
  obtain ⟨rfl, rfl, rfl, hempty', hsize⟩ := hc
  have hroom : response'.remaining = response'.size - headerSize := by
    rw [MessageResponse.remaining, hempty', List.length_nil, Nat.add_zero]
  have hbound : headerSize + 4 + leAt 12 4 b ≤ response'.size := hsize
  rintro _ _ ⟨rfl, rfl⟩
  have hpeek : SpanWriter.peek (4 + leAt 12 4 b) ⟨h'', b.drop 16, response'⟩ =
      pure (.value (), ⟨h'', b.drop 16, response'⟩) := by
    rw [SpanWriter.peek, Action.bind_of_value rfl, if_neg]
    · rfl
    · rw [hroom]
      omega
  rw [Action.bind_of_value hpeek]
  refine ((on_onFid sys hplaced (on_readDir sys hoffset _ includeAttributes)).bind fun data => ?_) _ _
    ⟨rfl, rfl⟩
  refine Action.on_of_states fun c w' hc => ?_
  obtain ⟨h', b', response''⟩ := c
  dsimp only at hc
  obtain ⟨hreading', rfl, rfl, shown, hpage⟩ := hc
  have hdata : data.length ≤ leAt 12 4 b := by
    obtain ⟨items, -, ⟨rest, -, -, -, hlength, -⟩, -⟩ := hpage
    exact hlength
  have hfirst : headerSize + (response''.written ++ leBytes 4 data.length).length ≤ response''.size := by
    rw [hempty', List.nil_append, length_leBytes]
    omega
  have hsecond : headerSize + (response''.written ++ leBytes 4 data.length ++ data).length ≤
      response''.size := by
    rw [hempty', List.nil_append, List.length_append, length_leBytes]
    omega
  rintro _ _ ⟨rfl, rfl⟩
  rw [SpanWriter.uint, Action.bind_of_value (write_run hfirst), write_run hsecond]
  have hwritten : response''.written ++ leBytes 4 data.length ++ data = leBytes 4 data.length ++ data := by
    rw [hempty', List.nil_append]
  exact ⟨hreading', data, shown, hpage, hwritten⟩

end Requests

/-- A `Treaddir` or a `Twreaddir` of a fid, with the response that it is answered in. -/
structure ReadDirRequest (fid : Nat) where
  message : Bytes
  response : MessageResponse
  includeAttributes : Bool
  length : headerSize ≤ message.length
  type : messageType (leAt 4 1 message) = some (if includeAttributes then .wreaddir else .readdir)
  body : holds (requestFields .readdir) (message.drop headerSize)
  fid : leAt headerSize 4 message = fid
  empty : response.written = []

namespace ReadDirRequest

variable {fid : Nat} (q : ReadDirRequest fid)

def offset : Nat := leAt (headerSize + 4) 8 q.message

def count : Nat := leAt (headerSize + 12) 4 q.message

end ReadDirRequest

section Runs

variable {d : Listing} {fd : Nat} {ω : Type} (sys : DirStream d fd ω) {fid : Nat}

/-- A reply holds the page of some entries, if it is not an error. -/
def Answers (q : ReadDirRequest fid) (entries : List Dirent) (reply : Reply) : Prop :=
  ∀ code tag body, reply = .answer code tag body →
    ∃ data shown, Page q.includeAttributes entries q.count data shown ∧
      body.written = leBytes 4 data.length ++ data

theorem on_respond (q : ReadDirRequest fid) {k : Nat} (hoffset : d.IsPosition q.offset k) :
    Action.On sys.step (Reading sys fid) (respond q.message q.response)
      (fun reply h w => Reading sys fid h w ∧ Answers q (d.entries.drop k) reply)
      (fun _ _ _ => False) (fun _ _ _ => True) := by
  refine .zoom fun h w hreading => ?_
  have hhandler : handlerOf q.message = handleReadDir q.includeAttributes := by
    rw [handlerOf_eq q.type]
    cases q.includeAttributes <;> rfl
  have hfid : leAt 0 4 (q.message.drop headerSize) = fid := (leAt_drop _ _ _ _).trans q.fid
  have hat : d.IsPosition (leAt 4 8 (q.message.drop headerSize)) k := by rwa [leAt_drop]
  have hhandled := on_handleReadDir sys q.body hfid hreading hat q.empty
    q.includeAttributes
  rintro _ w₀ ⟨rfl, rfl⟩
  rw [processMessage_run q.length, hhandler]
  refine (Action.On.attempt (V := fun r c w => Reading sys fid c.handler w ∧ (r = .ok () → ∃ data shown,
      Page q.includeAttributes (d.entries.drop k) (leAt 12 4 (q.message.drop headerSize)) data shown ∧
      c.response.written = leBytes 4 data.length ++ data)) (E := fun _ _ _ => False)
    (hhandled.mono (fun _ _ h => h) ?_ ?_ fun _ _ _ h => h.elim)).bind (fun r => ?_) _ _ ⟨rfl, rfl⟩
  · exact fun _ _ _ h => ⟨h.1, fun _ => h.2⟩
  · exact fun _ _ _ h => ⟨h, fun h => by cases h⟩
  cases r with
  | ok u =>
    refine .get_then fun c => Action.on_pure ?_
    rintro _ w ⟨rfl, hreading', hpage⟩
    refine ⟨hreading', ?_⟩
    rintro _ _ _ ⟨⟩
    obtain ⟨data, shown, hdata, hwritten⟩ := hpage rfl
    rw [leAt_drop] at hdata
    exact ⟨data, shown, hdata, hwritten⟩
  | error e =>
    refine .modify_then (Q := fun c w => Reading sys fid c.handler w) (fun _ _ h => h.1) ?_
    refine Action.On.bind (V := fun _ c w => Reading sys fid c.handler w) ?_ fun _ =>
      .get_then fun c => Action.on_pure ?_
    · intro c w hc
      rw [SpanWriter.uint]
      by_cases hfits : headerSize + (c.response.written ++ leBytes 4 ((-e) % 2 ^ 32).toNat).length ≤
          c.response.size
      · rw [write_run hfits]
        exact hc
      · rw [write_past hfits]
        trivial
    · rintro _ w ⟨rfl, hc⟩
      refine ⟨hc, ?_⟩
      rintro _ _ _ ⟨⟩

/-- Requests that are handled one after the other, with their replies. -/
inductive Served : Handler → ω → List (ReadDirRequest fid × Reply) → Handler → ω → Prop where
  | nil {h : Handler} {w : ω} : Served h w [] h w
  | cons {h h' h'' : Handler} {w w' w'' : ω} {q : ReadDirRequest fid} {reply : Reply}
      {l : List (ReadDirRequest fid × Reply)}
      (hfirst : (respond q.message q.response h).interpret sys.step w = ((.value reply, h'), w'))
      (hrest : Served h' w' l h'' w'') : Served h w ((q, reply) :: l) h'' w''

theorem Served.answers {h h' : Handler} {w w' : ω} {l : List (ReadDirRequest fid × Reply)}
    (hserved : Served sys h w l h' w') (hreading : Reading sys fid h w)
    (hoffsets : ∀ x ∈ l, d.IsCookie x.1.offset) : ∀ x ∈ l, Answers x.1 (d.after x.1.offset) x.2 := by
  induction hserved with
  | nil => exact fun _ hx => absurd hx List.not_mem_nil
  | cons hfirst hrest ih =>
    obtain ⟨hoffset, hoffsets⟩ := List.forall_mem_cons.mp hoffsets
    obtain ⟨k, hposition, hafter⟩ := hoffset.position
    obtain ⟨hreading', hanswers⟩ := (on_respond sys _ hposition).value hreading hfirst
    refine List.forall_mem_cons.mpr ⟨?_, ih hreading' hoffsets⟩
    rwa [hafter]

end Runs

/-! ## Scans -/

/-- A body shows entries: the number of its bytes, and the entries with or without attributes. -/
def Shows (includeAttributes : Bool) (body : Bytes) (shown : List Spans.DirectoryEntry) : Prop :=
  ∃ (items : List (Spans.DirectoryEntry × Option StatResult)) (data : Bytes), shown = items.map Prod.fst ∧
    (∀ i ∈ items, Spans.EntryInRange i.1 ∧ i.2.isSome = includeAttributes) ∧
    data = items.flatMap (fun i => Spans.entryBytes i.1 i.2) ∧ body = leBytes 4 data.length ++ data

theorem entryBytes_split (e : Spans.DirectoryEntry) (a : Option StatResult) :
    Spans.entryBytes e a = Spans.entryBytes e none ++ (a.map statResultBytes).getD [] := by
  cases a with
  | none => exact (List.append_nil _).symm
  | some s => exact Spans.entryBytes_some e s

theorem listed_unique {includeAttributes : Bool} {items items' : List (Spans.DirectoryEntry × Option StatResult)}
    (h : ∀ i ∈ items, Spans.EntryInRange i.1 ∧ i.2.isSome = includeAttributes)
    (h' : ∀ i ∈ items', Spans.EntryInRange i.1 ∧ i.2.isSome = includeAttributes)
    (hbytes : items.flatMap (fun i => Spans.entryBytes i.1 i.2) =
      items'.flatMap fun i => Spans.entryBytes i.1 i.2) : items.map Prod.fst = items'.map Prod.fst := by
  have hne (e : Spans.DirectoryEntry) (a : Option StatResult) (t : Bytes) : Spans.entryBytes e a ++ t ≠ [] := by
    refine List.ne_nil_of_length_pos ?_
    rw [List.length_append, Spans.length_entryBytes]
    split <;> simp only [qidSize] <;> omega
  induction items generalizing items' with
  | nil =>
    cases items' with
    | nil => rfl
    | cons i' items' => exact absurd hbytes.symm (hne i'.1 i'.2 _)
  | cons i items ih =>
    cases items' with
    | nil => exact absurd hbytes (hne i.1 i.2 _)
    | cons i' items' =>
      obtain ⟨⟨hrange, hattributes⟩, h⟩ := List.forall_mem_cons.mp h
      obtain ⟨⟨hrange', hattributes'⟩, h'⟩ := List.forall_mem_cons.mp h'
      rw [List.flatMap_cons, List.flatMap_cons, entryBytes_split i.1, entryBytes_split i'.1,
        List.append_assoc, List.append_assoc] at hbytes
      -- the entry is what `TryDirectoryEntry` returns at the start of the bytes
      obtain ⟨r, hr, -⟩ := Spans.reads_directoryEntry hrange ⟨_, 0, Nat.zero_le _⟩ _ (List.drop_zero ..)
      obtain ⟨r', hr', -⟩ := Spans.reads_directoryEntry hrange' ⟨_, 0, Nat.zero_le _⟩ _ (List.drop_zero ..)
      rw [hbytes] at hr
      have hentry : i.1 = i'.1 := by
        have hsame := hr.symm.trans hr'
        simp only [Option.some.injEq, Prod.mk.injEq] at hsame
        exact hsame.1
      rw [hentry] at hbytes
      have hrest := List.append_cancel_left hbytes
      have hlength : ((i.2.map statResultBytes).getD []).length = ((i'.2.map statResultBytes).getD []).length := by
        have hsome := hattributes.trans hattributes'.symm
        cases hi : i.2 <;> cases hi' : i'.2 <;> simp_all
      obtain ⟨-, hrest⟩ := List.append_inj hrest hlength
      rw [List.map_cons, List.map_cons, hentry, ih h h' hrest]

theorem Shows.unique {includeAttributes : Bool} {body : Bytes} {shown shown' : List Spans.DirectoryEntry}
    (h : Shows includeAttributes body shown) (h' : Shows includeAttributes body shown') : shown = shown' := by
  obtain ⟨items, data, rfl, hall, rfl, rfl⟩ := h
  obtain ⟨items', data', rfl, hall', rfl, hbody⟩ := h'
  refine listed_unique hall hall' (List.append_inj hbody ?_).2
  rw [length_leBytes, length_leBytes]

theorem Page.shows {includeAttributes : Bool} {entries : List Dirent} {count : Nat} {data : Bytes}
    {shown : List Dirent} (h : Page includeAttributes entries count data shown)
    (hrange : ∀ e ∈ entries, Spans.EntryInRange e.onWire) :
    Shows includeAttributes (leBytes 4 data.length ++ data) (shown.map Dirent.onWire) := by
  obtain ⟨items, rfl, ⟨rest, rfl, hall, rfl, -⟩, -⟩ := h
  refine ⟨items.map fun i => (i.1.onWire, i.2), Listed.bytes items, ?_, ?_, ?_, rfl⟩
  · rw [List.map_map, List.map_map]
    rfl
  · intro i hi
    obtain ⟨j, hj, rfl⟩ := List.mem_map.mp hi
    exact ⟨hrange _ (List.mem_append_left _ (List.mem_map_of_mem hj)), hall j hj⟩
  · rw [Listed.bytes, List.flatMap_map]
    exact congrArg (fun f => items.flatMap f) (funext fun i => Spans.directoryEntryBytes_eq i.1 i.2)

section Scans

variable {d : Listing} {fd : Nat} {ω : Type} (sys : DirStream d fd ω) {fid : Nat}

/-- A client that follows the cookies from an offset on: it asks again behind an error, goes on behind the
last entry that it was shown, and stops when it is shown none. -/
inductive Scan (fid : Nat) : Nat → Handler → ω → List (List Spans.DirectoryEntry) → Prop where
  | done {h h' : Handler} {w w' : ω} {q : ReadDirRequest fid} {code tag : Nat} {body : MessageResponse}
      (hreply : (respond q.message q.response h).interpret sys.step w =
        ((.value (.answer code tag body), h'), w'))
      (hshown : Shows q.includeAttributes body.written []) : Scan fid q.offset h w []
  | page {h h' : Handler} {w w' : ω} {q : ReadDirRequest fid} {code tag : Nat} {body : MessageResponse}
      {shown : List Spans.DirectoryEntry} {e : Spans.DirectoryEntry} {pages : List (List Spans.DirectoryEntry)}
      (hreply : (respond q.message q.response h).interpret sys.step w =
        ((.value (.answer code tag body), h'), w'))
      (hshown : Shows q.includeAttributes body.written shown) (hlast : shown.getLast? = some e)
      (hrest : Scan fid e.offset h' w' pages) : Scan fid q.offset h w (shown :: pages)
  | again {h h' : Handler} {w w' : ω} {q : ReadDirRequest fid} {ecode tag : Nat} {body : MessageResponse}
      {pages : List (List Spans.DirectoryEntry)}
      (hreply : (respond q.message q.response h).interpret sys.step w =
        ((.value (.rlerror ecode tag body), h'), w'))
      (hrest : Scan fid q.offset h' w' pages) : Scan fid q.offset h w pages

theorem Scan.flatten {offset k : Nat} {h : Handler} {w : ω} {pages : List (List Spans.DirectoryEntry)}
    (hscan : Scan sys fid offset h w pages) (hreading : Reading sys fid h w)
    (hoffset : d.IsPosition offset k) : pages.flatten = (d.entries.drop k).map Dirent.onWire := by
  induction hscan generalizing k with
  | done hreply hshown =>
    obtain ⟨-, hanswers⟩ := (on_respond sys _ hoffset).value hreading hreply
    obtain ⟨data, shown, hpage, hwritten⟩ := hanswers _ _ _ rfl
    rw [hwritten] at hshown
    have hsame := hshown.unique (hpage.shows fun e he => d.inRange e (List.mem_of_mem_drop he))
    have hempty : shown = [] := List.map_eq_nil_iff.mp hsame.symm
    obtain ⟨items, -, -, hnone⟩ := hpage
    rw [hnone hempty]
    rfl
  | @page h h' w w' q code tag body shown e pages hreply hshown hlast _ ih =>
    obtain ⟨hreading', hanswers⟩ := (on_respond sys _ hoffset).value hreading hreply
    obtain ⟨data, shown', hpage, hwritten⟩ := hanswers _ _ _ rfl
    rw [hwritten] at hshown
    obtain rfl := hshown.unique (hpage.shows fun e he => d.inRange e (List.mem_of_mem_drop he))
    obtain ⟨items, rfl, ⟨rest, hsplit, -⟩, -⟩ := hpage
    obtain ⟨e', he', rfl⟩ : ∃ e', (items.map Prod.fst).getLast? = some e' ∧ e'.onWire = e := by
      rw [List.getLast?_map] at hlast
      exact Option.map_eq_some_iff.mp hlast
    obtain ⟨front, hfront⟩ := List.getLast?_eq_some_iff.mp he'
    have hlength : (items.map Prod.fst).length = front.length + 1 := by
      rw [hfront, List.length_append, List.length_singleton]
    have hget : d.entries[k + front.length]? = some e' := by
      rw [← List.getElem?_drop, hsplit, hfront, List.append_assoc,
        List.getElem?_append_right le_rfl, Nat.sub_self]
      rfl
    have hdrop : d.entries.drop (k + front.length + 1) = rest := by
      rw [Nat.add_assoc, ← List.drop_drop, hsplit, ← hlength, List.drop_left]
    rw [List.flatten_cons, ih hreading' (d.isPosition_of_getElem hget), hdrop, hsplit, List.map_append]
  | again hreply _ ih =>
    obtain ⟨hreading', -⟩ := (on_respond sys _ hoffset).value hreading hreply
    exact ih hreading' hoffset

end Scans

/-! ## A stream -/

namespace Listing

variable (d : Listing) {k : Nat}

/-- The system of a stream that has only its position. -/
def step : (e : Syscall) → Nat → e.Answer × Nat
  | .readdir _, k => (.ok d.entries[k]?, if k < d.entries.length then k + 1 else k)
  | .rewinddir _, _ => ((), 0)
  | .seekdir _ offset, _ => ((), d.entries.findIdx (fun e => e.off = offset) + 1)
  | e, k => (working e, k)

variable {d}

theorem step_readdir_entry {fd : Nat} {e : Dirent} (he : d.entries[k]? = some e) :
    (d.step (.readdir fd) k).1 = .ok (some e) ∧ (d.step (.readdir fd) k).2 = k + 1 :=
  ⟨congrArg Except.ok he, if_pos (List.getElem?_eq_some_iff.mp he).1⟩

theorem step_readdir_end {fd : Nat} (he : d.entries[k]? = none) :
    (d.step (.readdir fd) k).1 = .ok none ∧ (d.step (.readdir fd) k).2 = k :=
  ⟨congrArg Except.ok he, if_neg (Nat.not_lt.mpr (List.getElem?_eq_none_iff.mp he))⟩

theorem step_seekdir {fd j : Nat} {e : Dirent} (he : d.entries[j]? = some e) :
    (d.step (.seekdir fd e.off) k).2 = j + 1 := by
  have hfound : d.entries.findIdx (fun e' => e'.off = e.off) < d.entries.length :=
    List.findIdx_lt_length_of_exists ⟨e, List.mem_of_getElem? he, decide_eq_true rfl⟩
  have hoff := of_decide_eq_true (List.findIdx_getElem (w := hfound))
  have hposition := d.isPosition_of_getElem (List.getElem?_eq_getElem hfound)
  rw [hoff] at hposition
  exact hposition.unique (d.isPosition_of_getElem he)

def stream (d : Listing) (fd : Nat) : DirStream d fd Nat where
  step := d.step
  position := id
  readdir_entry := fun _ _ => step_readdir_entry
  readdir_end := fun _ => step_readdir_end
  rewinddir := fun _ => rfl
  seekdir := fun _ _ _ => step_seekdir
  fdopendir := fun _ => rfl
  fstatat := fun _ _ => rfl

theorem inRange_a : Spans.EntryInRange ⟨⟨7, 0, 0⟩, 1, 8, ascii "a"⟩ where
  qid := by
    change _ ∧ _ ∧ _
    decide
  offset := by decide
  type := by decide
  name := by
    change _ ∧ _
    decide

theorem length_a : (ascii "a").length ≤ 255 := by decide

def single : Listing where
  entries := [⟨7, 1, 8, ⟨ascii "a", length_a⟩⟩]
  distinct := List.pairwise_singleton _ _
  nonzero := List.forall_mem_singleton.mpr Nat.one_ne_zero
  inRange := List.forall_mem_singleton.mpr inRange_a

end Listing

def openedRoot : File := ⟨[], ⟨0, 3, 0, 0, []⟩, ⟨1, 0, 0x80⟩, 2, .file 5⟩

def openedHandler : Handler := (Handler.fresh false).setFid 1 (some (.file openedRoot))

theorem openedHandler_fid : openedHandler.fids 1 = some (.file openedRoot) := rfl

end WslFreeBSD.Plan9
