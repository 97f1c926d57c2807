import Mathlib.Data.Finset.Basic
import WslFreeBSD.Lib.Paging
import WslFreeBSD.Stub.Bounds

/-!
# Directories of the stub file server

A client reads a directory with one `Tread` after the other. The offset of the next request is the one
that the last entry carries, which is the number of entries that were packed up to it; the server skips
that many entries of the directory, `.` and `..` included. The requests are a scan by pages, whose
pages are what the server packs (`page`).
-/

namespace WslFreeBSD.Stub

open Lib Config
open Lib.Faulting

/-! ## Pages -/

def Dirent.packedSize (de : Dirent) : Nat := 13 + 8 + 1 + 2 + de.name.1.length

def Dirent.kind (de : Dirent) : UInt8 := if de.type = DT_DIR then 1 else 0

def Dirent.qtype (de : Dirent) : Nat := if de.type = DT_DIR then P9_QID_DIR else 0

/-- The entries that are packed behind the bytes that the reply has already. -/
def page (count : Nat) : Nat → List Dirent → List Dirent
  | _, [] => []
  | used, de :: des =>
    if used < count then
      if de.isDot then page count used des
      else if count < used + de.packedSize then [] else de :: page count (used + de.packedSize) des
    else []

def listed (entries : List Dirent) : List Dirent := entries.filter fun de => !de.isDot

theorem listed_cons_dot {de : Dirent} (h : de.isDot = true) (des : List Dirent) :
    listed (de :: des) = listed des := List.filter_cons_of_neg (by rw [h]; decide)

theorem listed_cons {de : Dirent} (h : de.isDot = false) (des : List Dirent) :
    listed (de :: des) = de :: listed des := List.filter_cons_of_pos (by rw [h]; rfl)

theorem page_isPrefix (count used : Nat) (des : List Dirent) : page count used des <+: listed des := by
  induction des generalizing used with
  | nil => exact List.prefix_rfl
  | cons de des ih =>
    rw [page]
    split
    · cases hdot : de.isDot with
      | true =>
        rw [if_pos rfl, listed_cons_dot hdot]
        exact ih used
      | false =>
        rw [if_neg Bool.false_ne_true, listed_cons hdot]
        split
        · exact List.nil_prefix
        · exact (List.prefix_cons_inj _).mpr (ih _)
    · exact List.nil_prefix

theorem listed_eq_nil_of_page {count : Nat} {des : List Dirent}
    (hfit : ∀ de ∈ listed des, de.packedSize ≤ count) (h : page count 0 des = []) : listed des = [] := by
  induction des with
  | nil => rfl
  | cons de des ih =>
    cases hdot : de.isDot with
    | true =>
      rw [listed_cons_dot hdot] at hfit ⊢
      by_cases hcount : 0 < count
      · rw [page, if_pos hcount, hdot, if_pos rfl] at h
        exact ih hfit h
      · refine List.eq_nil_iff_forall_not_mem.mpr fun de' hde' => ?_
        have := hfit de' hde'
        rw [Dirent.packedSize] at this
        omega
    | false =>
      rw [listed_cons hdot] at hfit
      have hsize := hfit de (List.mem_cons_self ..)
      have hpos : 0 < de.packedSize := by
        rw [Dirent.packedSize]
        omega
      rw [page, if_pos (by omega), hdot, if_neg Bool.false_ne_true, Nat.zero_add,
        if_neg (Nat.not_lt.mpr hsize)] at h
      cases h

theorem sum_packedSize_page {count used : Nat} (h : used ≤ count) (des : List Dirent) :
    used + ((page count used des).map Dirent.packedSize).sum ≤ count := by
  induction des generalizing used with
  | nil => exact h
  | cons de des ih =>
    rw [page]
    split
    · split
      · exact ih h
      · split
        · exact h
        · rename_i hsize
          rw [List.map_cons, List.sum_cons, ← Nat.add_assoc]
          exact ih (Nat.le_of_not_lt hsize)
    · exact h

/-! ## What a client makes of a page -/

/-- An entry of a reply. -/
structure Received where
  cookie : Nat
  kind : UInt8
  name : Bytes
  deriving DecidableEq, Repr

def unpackEntries (data : Bytes) : List Received :=
  if data.length < 24 then []
  else
    ⟨leAt 13 8 data, data.getD 21 0, (data.drop 24).take (leAt 22 2 data)⟩ ::
      unpackEntries (data.drop (24 + leAt 22 2 data))
termination_by data.length
decreasing_by
  rw [List.length_drop]
  omega

/-- What is received for entries that are packed behind so many others. -/
def receivedFrom : Nat → List Dirent → List Received
  | _, [] => []
  | idx, de :: des => ⟨(idx + 1) % 2 ^ 64, de.kind, de.name.1⟩ :: receivedFrom (idx + 1) des

theorem receivedFrom_mod (idx : Nat) (des : List Dirent) :
    receivedFrom (idx % 2 ^ 64) des = receivedFrom idx des := by
  induction des generalizing idx with
  | nil => rfl
  | cons de des ih =>
    rw [receivedFrom, receivedFrom, Nat.mod_add_mod, ← ih (idx + 1), ← Nat.mod_add_mod, ih]

theorem getLast?_receivedFrom (idx : Nat) {des : List Dirent} (h : des ≠ []) :
    (receivedFrom idx des).getLast?.map Received.cookie = some ((idx + des.length) % 2 ^ 64) := by
  induction des generalizing idx with
  | nil => exact absurd rfl h
  | cons de des ih =>
    rw [receivedFrom]
    cases des with
    | nil => rfl
    | cons de' des =>
      have hlast := ih (idx + 1) (List.cons_ne_nil _ _)
      rw [receivedFrom] at hlast ⊢
      rw [List.getLast?_cons_cons, hlast, List.length_cons (a := de)]
      congr 2
      omega

def packEntry (de : Dirent) (qpath idx : Nat) : Bytes :=
  packQid de.qtype 0 qpath ++ leBytes 8 (idx + 1) ++ [de.kind] ++ putString de.name.1

theorem length_packEntry (de : Dirent) (qpath idx : Nat) : (packEntry de qpath idx).length = de.packedSize := by
  simp only [packEntry, List.length_append, length_packQid, length_leBytes, List.length_singleton,
    length_putString]
  rw [Dirent.packedSize]
  omega

theorem packEntry_append (de : Dirent) (qpath idx : Nat) (rest : Bytes) :
    packEntry de qpath idx ++ rest = packQid de.qtype 0 qpath ++ (leBytes 8 (idx + 1) ++ (de.kind ::
      (leBytes 2 de.name.1.length ++ (de.name.1 ++ rest)))) := by
  rw [packEntry, putString]
  simp only [List.append_assoc, List.cons_append, List.nil_append]

theorem unpackEntries_packEntry (de : Dirent) (qpath idx : Nat) (rest : Bytes) :
    unpackEntries (packEntry de qpath idx ++ rest) =
      ⟨(idx + 1) % 2 ^ 64, de.kind, de.name.1⟩ :: unpackEntries rest := by
  have hlen : (packEntry de qpath idx).length = 24 + de.name.1.length := length_packEntry de qpath idx
  have hqid := length_packQid de.qtype 0 qpath
  have hcookie : leAt 13 8 (packEntry de qpath idx ++ rest) = (idx + 1) % 2 ^ 64 := by
    have hbytes : leBytes 8 (idx + 1) = leBytes 8 ((idx + 1) % 2 ^ 64) :=
      (leBytes_inj_iff 8 _ _).mpr (Nat.mod_mod _ _).symm
    rw [packEntry_append, hbytes]
    exact leAt_append_leBytes hqid (Nat.mod_lt _ (by decide)) _
  have hname : leAt 22 2 (packEntry de qpath idx ++ rest) = de.name.1.length := by
    have hfront : (packQid de.qtype 0 qpath ++ leBytes 8 (idx + 1) ++ [de.kind]).length = 22 := by
      rw [List.length_append, List.length_append, hqid, length_leBytes, List.length_singleton]
    have hlt : de.name.1.length < 256 ^ 2 := de.short.trans (by decide)
    rw [packEntry, putString, List.append_assoc, List.append_assoc]
    exact leAt_append_leBytes hfront hlt _
  have hkind : (packEntry de qpath idx ++ rest).getD 21 0 = de.kind := by
    have hfront : (packQid de.qtype 0 qpath ++ leBytes 8 (idx + 1)).length = 21 := by
      rw [List.length_append, hqid, length_leBytes]
    rw [packEntry, List.append_assoc, List.append_assoc, List.getD_eq_getElem?_getD,
      List.getElem?_append_right hfront.le, hfront]
    rfl
  have hdrop : (packEntry de qpath idx ++ rest).drop 24 = de.name.1 ++ rest := by
    have hfront : (packQid de.qtype 0 qpath ++ leBytes 8 (idx + 1) ++ [de.kind] ++
        leBytes 2 de.name.1.length).length = 24 := by
      simp only [List.length_append, hqid, length_leBytes, List.length_singleton]
    rw [packEntry, putString, ← List.append_assoc, List.append_assoc _ de.name.1]
    exact List.drop_left' hfront
  rw [unpackEntries, if_neg (by rw [List.length_append, hlen]; omega), hcookie, hname, hkind, ← hlen,
    List.drop_left, hdrop, List.take_left]

/-! ## The server's side -/

variable {σ : Type} {K : Kernel σ} {w : World σ}

theorem skipEntries_eq (offset idx : Nat) (des : List Dirent) :
    (skipEntries offset idx des).2 = des.drop (offset - idx) ∧
      (offset - idx ≤ des.length → idx ≤ offset → (skipEntries offset idx des).1 = offset) := by
  induction des generalizing idx with
  | nil => simp [skipEntries]; omega
  | cons de des ih =>
    rw [skipEntries]
    split
    · have hsub : offset - idx = (offset - (idx + 1)) + 1 := by omega
      rw [hsub]
      refine ⟨(ih (idx + 1)).1, fun hle _ => (ih (idx + 1)).2 ?_ (by omega)⟩
      rw [List.length_cons] at hle
      omega
    · have hsub : offset - idx = 0 := by omega
      rw [hsub]
      exact ⟨rfl, fun _ _ => by dsimp only; omega⟩

theorem unpackEntries_nil : unpackEntries [] = [] := by
  rw [unpackEntries, if_pos (by decide)]

theorem packEntries_cons {count idx : Nat} {data : Bytes} {de : Dirent} {des : List Dirent}
    (hdot : de.isDot = false) (hroom : data.length + de.packedSize ≤ count) (w : World σ) :
    packEntries count idx data (de :: des) w =
      packEntries count ((idx + 1) % 2 ^ 64) (data ++ packEntry de w.globals.nextQpath idx) des
        { w with globals := { w.globals with nextQpath := (w.globals.nextQpath + 1) % 2 ^ 64 } } := by
  have hsize : de.packedSize = 13 + 8 + 1 + 2 + de.name.1.length := rfl
  rw [packEntries, if_pos (by omega), hdot, if_neg Bool.false_ne_true,
    bind_of_ok (a := w.globals.nextQpath) rfl, if_neg (by omega),
    push_eq (by rw [length_packQid]; omega), bind_of_ok lift_ok,
    push_eq (by simp only [List.length_append, length_packQid, length_leBytes]; omega), bind_of_ok lift_ok,
    push_eq (by simp only [List.length_append, length_packQid, length_leBytes, List.length_singleton]; omega),
    bind_of_ok lift_ok,
    push_eq (by
      simp only [List.length_append, length_packQid, length_leBytes, List.length_singleton, length_putString]
      omega),
    bind_of_ok lift_ok]
  simp only [packEntry, List.append_assoc]
  rfl

theorem packEntries_full {count idx : Nat} {data : Bytes} {de : Dirent} {des : List Dirent}
    (hused : data.length < count) (hdot : de.isDot = false) (hroom : count < data.length + de.packedSize)
    (w : World σ) : packEntries count idx data (de :: des) w =
      .ok (data, { w with globals := { w.globals with nextQpath := (w.globals.nextQpath + 1) % 2 ^ 64 } }) := by
  have hsize : de.packedSize = 13 + 8 + 1 + 2 + de.name.1.length := rfl
  rw [packEntries, if_pos hused, hdot, if_neg Bool.false_ne_true, bind_of_ok (a := w.globals.nextQpath) rfl,
    if_pos (by omega)]
  rfl

/-- Behind the data there are bytes from which a client gets these entries. -/
def Packed (idx : Nat) (data : Bytes) (des : List Dirent) (w : World σ) (r : Bytes × World σ) : Prop :=
  ∃ packed q, r = (data ++ packed, { w with globals := { w.globals with nextQpath := q } }) ∧
    packed.length = (des.map Dirent.packedSize).sum ∧ unpackEntries packed = receivedFrom idx des

theorem packed_nil (idx : Nat) (data : Bytes) (w : World σ) (q : Nat) :
    Packed idx data [] w (data, { w with globals := { w.globals with nextQpath := q } }) :=
  ⟨[], q, by rw [List.append_nil], rfl, unpackEntries_nil⟩

theorem packed_cons {idx : Nat} {data : Bytes} {de : Dirent} {des : List Dirent} {qpath q : Nat}
    {r : Bytes × World σ} (h : Packed ((idx + 1) % 2 ^ 64) (data ++ packEntry de qpath idx) des
      { w with globals := { w.globals with nextQpath := q } } r) : Packed idx data (de :: des) w r := by
  obtain ⟨packed, q', rfl, hlen, hunpack⟩ := h
  refine ⟨packEntry de qpath idx ++ packed, q', by rw [List.append_assoc], ?_, ?_⟩
  · rw [List.length_append, length_packEntry, hlen, List.map_cons, List.sum_cons]
  · rw [unpackEntries_packEntry, hunpack, receivedFrom_mod, receivedFrom]

theorem packEntries_eq (count idx : Nat) (data : Bytes) (des : List Dirent) (w : World σ) :
    ∃ r, packEntries count idx data des w = .ok r ∧ Packed idx data (page count data.length des) w r := by
  induction des generalizing idx data w with
  | nil => exact ⟨_, rfl, packed_nil idx data w w.globals.nextQpath⟩
  | cons de des ih =>
    by_cases hused : data.length < count
    · cases hdot : de.isDot with
      | true =>
        rw [packEntries, page, if_pos hused, if_pos hused, hdot, if_pos rfl, if_pos rfl]
        exact ih idx data w
      | false =>
        rw [page, if_pos hused, hdot, if_neg Bool.false_ne_true]
        by_cases hroom : count < data.length + de.packedSize
        · rw [if_pos hroom]
          exact ⟨_, packEntries_full hused hdot hroom w, packed_nil idx data w _⟩
        · rw [if_neg hroom, packEntries_cons hdot (Nat.le_of_not_lt hroom)]
          have hlen : (data ++ packEntry de w.globals.nextQpath idx).length = data.length + de.packedSize := by
            rw [List.length_append, length_packEntry]
          obtain ⟨r, hr, hpacked⟩ := ih ((idx + 1) % 2 ^ 64) (data ++ packEntry de w.globals.nextQpath idx)
            { w with globals := { w.globals with nextQpath := (w.globals.nextQpath + 1) % 2 ^ 64 } }
          rw [hlen] at hpacked
          exact ⟨r, hr, packed_cons hpacked⟩
    · rw [packEntries, page, if_neg hused, if_neg hused]
      exact ⟨_, rfl, packed_nil idx data w w.globals.nextQpath⟩

/-! ## One request -/

def Call.reading : Call → Bool
  | .opens (.dup _) | .malloc _ | .opendir _ | .closedir _ | .send _ _ => true
  | _ => false

/-- While the kernel is in these states there is memory, and a duplicate of the descriptor is a stream of
the entries. -/
structure Lists (K : Kernel σ) (fd : Nat) (opened : Finset Nat) (entries : List Dirent)
    (during : σ → Prop) : Prop where
  memory : ∀ size s, during s → size < 2 ^ 32 + 4 → (K.answer (.malloc size) s).1 = true
  dup : ∀ s, during s → K.grants (.dup fd) s = true
  stream : ∀ s, during s →
    K.streams (K.numbering.pick opened) (K.answer (.opens (.dup fd)) s).2 = some entries
  stays : ∀ c s, c.reading = true → during s → during (K.answer c s).2

variable {fd : Nat} {opened : Finset Nat} {entries : List Dirent} {during : σ → Prop}

theorem Lists.malloc_eq (h : Lists K fd opened entries during) {size : Nat} (hw : during w.env)
    (hsize : size < 2 ^ 32 + 4) :
    malloc K size w = .ok (true, { w with env := (K.answer (.malloc size) w.env).2 }) := by
  change Except.ok ((K.answer (.malloc size) w.env).1, _) = _
  rw [h.memory size w.env hw hsize]
  rfl

/-- A client that reads a directory; each request has a count of its own. -/
structure Reader where
  conn : Nat
  tag : Nat
  fid : Nat
  count : Nat → Nat
  tag_lt : tag < 256 ^ 2
  fid_lt : fid < 256 ^ 4
  count_lt : ∀ k, count k < 256 ^ 4

/-- The `k`-th request. -/
def Reader.request (r : Reader) (k offset : Nat) : Bytes :=
  structBytes [(4, 23), (1, P9_TREAD), (2, r.tag), (4, r.fid), (8, offset), (4, r.count k)]

/-- What is true between the requests. -/
structure Reader.Ready (r : Reader) (e : FidEntry) (opened : Finset Nat) (during : σ → Prop)
    (w : World σ) : Prop where
  found : w.globals.fidMap.find r.fid = some e
  opened_eq : w.opened = opened
  env : during w.env

def Reader.Reads (r : Reader) (K : Kernel σ) (k offset : Nat) (w : World σ) (data : Bytes) (w' : World σ) :
    Prop :=
  p9HandleRequest K r.conn (r.request k offset) w = .ok (some [], w') ∧
    ∃ body, w'.sent = w.sent ++ [⟨P9_RREAD, r.tag, body⟩] ∧ data = (body.drop 4).take (leAt 0 4 body)

theorem Reader.reads_unique {r : Reader} {k offset : Nat} {data data' : Bytes} {w' w'' : World σ}
    (h : r.Reads K k offset w data w') (h' : r.Reads K k offset w data' w'') : data = data' ∧ w' = w'' := by
  obtain ⟨hrun, body, hsent, rfl⟩ := h
  obtain ⟨hrun', body', hsent', rfl⟩ := h'
  rw [hrun] at hrun'
  cases hrun'
  rw [hsent] at hsent'
  cases List.append_cancel_left hsent'
  exact ⟨rfl, rfl⟩

theorem Reader.leAt_request (r : Reader) (k offset : Nat) (i : Nat) {n v off : Nat}
    (hi : [(4, 23), (1, P9_TREAD), (2, r.tag), (4, r.fid), (8, offset), (4, r.count k)][i]? = some (n, v))
    (hoff : (([(4, 23), (1, P9_TREAD), (2, r.tag), (4, r.fid), (8, offset), (4, r.count k)].take i).map
      Prod.fst).sum = off) (hv : v < 256 ^ n) : leAt off n (r.request k offset) = v := by
  have hfield := leAt_structBytes (l := []) i hi (by rw [List.length_nil, Nat.zero_add, hoff]) hv []
  rwa [List.nil_append, List.append_nil] at hfield

theorem Reader.length_request (r : Reader) (k offset : Nat) : (r.request k offset).length = 23 :=
  length_structBytes _

theorem Lists.opendir_eq (h : Lists K fd opened entries during) {w' : World σ} (hw : during w.env)
    (henv : w'.env = (K.answer (.opens (.dup fd)) w.env).2) :
    opendir K (K.numbering.pick opened) w' =
      .ok (some entries, { w' with env := (K.answer (.opendir (K.numbering.pick opened)) w'.env).2 }) := by
  rw [opendir_apply, henv, h.stream w.env hw]

theorem readDirectory_eq {e : FidEntry} (conn tag offset : Nat) {count : Nat}
    (h : Lists K e.fd w.opened entries during) (hw : during w.env) (hcount : count < 256 ^ 4) :
    ∃ data w', readDirectory K conn tag e offset count w = .ok ((), w') ∧
      w'.sent = w.sent ++ [⟨P9_RREAD, tag, leBytes 4 data.length ++ data⟩] ∧
      (w'.globals.fidMap = w.globals.fidMap ∧ w'.opened = w.opened ∧ during w'.env) ∧
      data.length = ((page count 0 (entries.drop offset)).map Dirent.packedSize).sum ∧
      unpackEntries data =
        receivedFrom (skipEntries offset 0 entries).1 (page count 0 (entries.drop offset)) := by
  have hlt : count < 2 ^ 32 + 4 := hcount.trans (by decide)
  have hskip : (skipEntries offset 0 entries).2 = entries.drop offset := (skipEntries_eq offset 0 entries).1
  have hdup := h.stays (.opens (.dup e.fd)) w.env rfl hw
  have hstream := h.stays (.opendir (K.numbering.pick w.opened)) _ rfl hdup
  have hmem := h.stays (.malloc count) _ rfl hstream
  rw [readDirectory, bind_of_ok (acquire_of_true (h.dup w.env hw))]
  dsimp only
  rw [bind_of_ok (h.opendir_eq hw rfl)]
  dsimp only
  rw [bind_of_ok (h.malloc_eq hstream hlt), if_pos rfl, hskip]
  obtain ⟨r, hr, data, q, rfl, hlen, hunpack⟩ := packEntries_eq count (skipEntries offset 0 entries).1 []
    (entries.drop offset) { w with
      opened := insert (K.numbering.pick w.opened) w.opened
      env := (K.answer (.malloc count) (K.answer (.opendir (K.numbering.pick w.opened))
        (K.answer (.opens (.dup e.fd)) w.env).2).2).2 }
  rw [List.length_nil] at hlen hunpack
  have hsize : 4 + data.length < 2 ^ 32 + 4 := by
    have hle := sum_packedSize_page (Nat.zero_le count) (entries.drop offset)
    omega
  have hclose := h.stays (.closedir (K.numbering.pick w.opened)) _ rfl hmem
  have hreply := h.stays (.malloc (4 + data.length)) _ rfl hclose
  rw [bind_of_ok hr, bind_of_ok (closedir_apply _), List.nil_append, bind_of_ok (h.malloc_eq hclose hsize),
    if_pos rfl, p9SendResponse_apply]
  refine ⟨data, _, rfl, rfl, ⟨rfl, ?_, ?_⟩, hlen, hunpack⟩
  · exact Finset.erase_insert (K.numbering.fresh w.opened)
  · exact h.stays (.send conn _) _ rfl hreply

theorem Reader.tread_eq {r : Reader} {e : FidEntry} {k offset : Nat} (hdir : e.isDirectory = true)
    (hfound : w.globals.fidMap.find r.fid = some e) (hoffset : offset < 256 ^ 8) :
    tread K r.conn r.tag ((r.request k offset).drop 7) w =
      readDirectory K r.conn r.tag e offset (r.count k) w := by
  have hbody : ((r.request k offset).drop 7).length = 16 := by rw [List.length_drop, r.length_request]
  have hfields (off n : Nat) : fieldAt ((r.request k offset).drop 7) 16 off n =
      leAt (7 + off) n (r.request k offset) := by
    rw [fieldAt, if_pos hbody.ge, leAt_drop]
  have hfid : leAt 7 4 (r.request k offset) = r.fid := r.leAt_request k offset 3 rfl rfl r.fid_lt
  have hoff : leAt 11 8 (r.request k offset) = offset := r.leAt_request k offset 4 rfl rfl hoffset
  have hcount : leAt 19 4 (r.request k offset) = r.count k := r.leAt_request k offset 5 rfl rfl (r.count_lt k)
  rw [tread, bind_of_ok (lift_field (by omega)), bind_of_ok (lift_field (by omega)),
    bind_of_ok (lift_field (by omega)), hfields, hfields, hfields, hfid, hoff, hcount,
    bind_of_ok (fidFind_apply _), hfound]
  dsimp only
  rw [hdir, if_pos rfl]

theorem Reader.p9HandleRequest_eq {r : Reader} {e : FidEntry} {k offset : Nat}
    (h : Lists K e.fd opened entries during) (hdir : e.isDirectory = true) (hw : r.Ready e opened during w)
    (hoffset : offset < 256 ^ 8) :
    p9HandleRequest K r.conn (r.request k offset) w =
      (readDirectory K r.conn r.tag e offset (r.count k) >>= fun _ => pure (some []))
        { w with env := (K.answer (.malloc 19) w.env).2 } := by
  have hlen := r.length_request k offset
  have hsize : leAt 0 4 (r.request k offset) = 23 := r.leAt_request k offset 0 rfl rfl (by decide)
  have htype : leAt 4 1 (r.request k offset) = P9_TREAD := r.leAt_request k offset 1 rfl rfl (by decide)
  have htag : leAt 5 2 (r.request k offset) = r.tag := r.leAt_request k offset 2 rfl rfl r.tag_lt
  have hrun : p9HandleRequest K r.conn (r.request k offset ++ []) w = _ :=
    p9HandleRequest_append (hsize.trans hlen.symm) (by rw [hlen]; decide) (by rw [hlen]; decide)
  have hmem : malloc K 19 w = _ := h.malloc_eq hw.env (by decide)
  have hdispatch : p9Dispatch K r.conn r.tag ((r.request k offset).drop 7) P9_TREAD =
      tread K r.conn r.tag ((r.request k offset).drop 7) := rfl
  rw [List.append_nil, htype, htag, hlen, bind_of_ok hmem, if_pos rfl, hdispatch] at hrun
  exact hrun.trans (bind_congr_left (Reader.tread_eq hdir hw.found hoffset))

theorem Reader.exists_reads {r : Reader} {e : FidEntry} {k offset : Nat}
    (h : Lists K e.fd opened entries during) (hdir : e.isDirectory = true) (hw : r.Ready e opened during w)
    (hoffset : offset < 256 ^ 8) :
    ∃ data w', r.Reads K k offset w data w' ∧ r.Ready e opened during w' ∧
      data.length = ((page (r.count k) 0 (entries.drop offset)).map Dirent.packedSize).sum ∧
      unpackEntries data =
        receivedFrom (skipEntries offset 0 entries).1 (page (r.count k) 0 (entries.drop offset)) := by
  have hrun := r.p9HandleRequest_eq (k := k) h hdir hw hoffset
  obtain ⟨hfound, rfl, henv⟩ := hw
  obtain ⟨data, w', hread, hsent, ⟨hmap, hopened, henv'⟩, hlen, hunpack⟩ :=
    readDirectory_eq (w := { w with env := (K.answer (.malloc 19) w.env).2 }) r.conn r.tag offset h
      (h.stays (.malloc 19) w.env rfl henv) (r.count_lt k)
  have hlt : data.length < 256 ^ 4 := by
    have hle := sum_packedSize_page (Nat.zero_le (r.count k)) (entries.drop offset)
    have := r.count_lt k
    omega
  have hreply : (((leBytes 4 data.length ++ data).drop 4).take (leAt 0 4 (leBytes 4 data.length ++ data))) =
      data := by
    have hfield : leAt 0 4 (leBytes 4 data.length ++ data) = data.length := by
      have := leAt_append_leBytes (l := []) rfl hlt data
      rwa [List.nil_append] at this
    rw [hfield, List.drop_left' (length_leBytes 4 _), List.take_length]
  rw [bind_of_ok hread] at hrun
  exact ⟨data, w', ⟨hrun, _, hsent, hreply.symm⟩, ⟨hmap ▸ hfound, hopened, henv'⟩, hlen, hunpack⟩

/-! ## Whole directories -/

/-- The pages that a client gets, each with the entries that are packed from its offset on. -/
def Reader.pages (r : Reader) (entries : List Dirent) (k offset : Nat) : List Dirent :=
  page (r.count k) 0 (entries.drop offset)

/-- The client goes on until a reply is empty; each request starts at the offset that the last entry of
the reply before it carries. -/
inductive Reader.Scan (r : Reader) (K : Kernel σ) : Nat → Nat → World σ → List (List Received) → Prop where
  | done {k offset : Nat} {w w' : World σ} (h : r.Reads K k offset w [] w') : Scan r K k offset w []
  | page {k offset : Nat} {w w' : World σ} {data : Bytes} {last : Received} {pages : List (List Received)}
      (h : r.Reads K k offset w data w') (hne : data ≠ []) (hlast : (unpackEntries data).getLast? = some last)
      (rest : Scan r K (k + 1) last.cookie w' pages) : Scan r K k offset w (unpackEntries data :: pages)

def Received.shown (x : Received) : UInt8 × Bytes := (x.kind, x.name)

def Dirent.shown (de : Dirent) : UInt8 × Bytes := (de.kind, de.name.1)

/-- Every entry other than `.` and `..` is returned once, and then the reply is empty. -/
def Reader.ReturnsAll (r : Reader) (K : Kernel σ) (w : World σ) (entries : List Dirent) : Prop :=
  ∃ pages, r.Scan K 0 0 w pages ∧
    (pages.flatten.map Received.shown).Perm ((listed entries).map Dirent.shown)

theorem shown_receivedFrom (idx : Nat) (des : List Dirent) :
    (receivedFrom idx des).map Received.shown = des.map Dirent.shown := by
  induction des generalizing idx with
  | nil => rfl
  | cons de des ih => rw [receivedFrom, List.map_cons, ih, List.map_cons]; rfl

theorem Reader.exists_page {r : Reader} {e : FidEntry} {k offset : Nat}
    (h : Lists K e.fd opened entries during) (hdir : e.isDirectory = true) (hw : r.Ready e opened during w)
    (hoffset : offset < 256 ^ 8) :
    ∃ data w', r.Reads K k offset w data w' ∧ r.Ready e opened during w' ∧
      (data = [] ↔ r.pages entries k offset = []) ∧
      unpackEntries data = receivedFrom offset (r.pages entries k offset) := by
  obtain ⟨data, w', hreads, hready, hlen, hunpack⟩ := r.exists_reads (k := k) h hdir hw hoffset
  refine ⟨data, w', hreads, hready, ?_, ?_⟩
  · rw [← List.length_eq_zero_iff, hlen]
    change _ ↔ page (r.count k) 0 (entries.drop offset) = []
    cases page (r.count k) 0 (entries.drop offset) with
    | nil => exact iff_of_true rfl rfl
    | cons de des =>
      refine iff_of_false ?_ (List.cons_ne_nil _ _)
      rw [List.map_cons, List.sum_cons, Dirent.packedSize]
      omega
  · rw [hunpack]
    change _ = receivedFrom offset (page (r.count k) 0 (entries.drop offset))
    by_cases hbehind : offset ≤ entries.length
    · rw [(skipEntries_eq offset 0 entries).2 hbehind (Nat.zero_le _)]
    · rw [List.drop_eq_nil_of_le (Nat.le_of_not_le hbehind)]
      rfl

theorem Reader.Scan.paging {r : Reader} {e : FidEntry} {k offset : Nat} {pages : List (List Received)}
    (h : Lists K e.fd opened entries during) (hdir : e.isDirectory = true) (hscan : r.Scan K k offset w pages)
    (hw : r.Ready e opened during w) (hoffset : offset < 256 ^ 8) :
    ∃ shown, Paging.Scan (2 ^ 64) (r.pages entries) k offset shown ∧
      pages.flatten.map Received.shown = shown.flatten.map Dirent.shown := by
  induction hscan with
  | @done k offset w w' hreads =>
    obtain ⟨data, w'', hreads', -, hempty, -⟩ := r.exists_page (k := k) h hdir hw hoffset
    obtain ⟨rfl, -⟩ := Reader.reads_unique hreads hreads'
    exact ⟨[], .done (hempty.mp rfl), rfl⟩
  | @page k offset w w' data last pages hreads hne hlast _ ih =>
    obtain ⟨data', w'', hreads', hready, hempty, hunpack⟩ := r.exists_page (k := k) h hdir hw hoffset
    obtain ⟨rfl, rfl⟩ := Reader.reads_unique hreads hreads'
    have hpage : r.pages entries k offset ≠ [] := fun hnil => hne (hempty.mpr hnil)
    have hcookie := getLast?_receivedFrom offset hpage
    rw [← hunpack, hlast] at hcookie
    have hnext : last.cookie = (offset + (r.pages entries k offset).length) % 2 ^ 64 := Option.some.inj hcookie
    obtain ⟨shown, hpaging, hshown⟩ := ih hready (by rw [hnext]; exact Nat.mod_lt _ (by decide))
    rw [hnext] at hpaging
    refine ⟨_, .page hpage hpaging, ?_⟩
    rw [List.flatten_cons, List.map_append, hshown, List.flatten_cons, List.map_append, hunpack,
      shown_receivedFrom]

theorem Reader.exists_scan {r : Reader} {e : FidEntry} {k offset : Nat} {shown : List (List Dirent)}
    (h : Lists K e.fd opened entries during) (hdir : e.isDirectory = true)
    (hpaging : Paging.Scan (2 ^ 64) (r.pages entries) k offset shown) (hw : r.Ready e opened during w)
    (hoffset : offset < 256 ^ 8) :
    ∃ pages, r.Scan K k offset w pages ∧
      pages.flatten.map Received.shown = shown.flatten.map Dirent.shown := by
  induction hpaging generalizing w with
  | @done k offset hnil =>
    obtain ⟨data, w', hreads, -, hempty, -⟩ := r.exists_page (k := k) h hdir hw hoffset
    obtain rfl := hempty.mpr hnil
    exact ⟨[], .done hreads, rfl⟩
  | @page k offset shown hpage _ ih =>
    obtain ⟨data, w', hreads, hready, hempty, hunpack⟩ := r.exists_page (k := k) h hdir hw hoffset
    have hcookie := getLast?_receivedFrom offset hpage
    rw [← hunpack] at hcookie
    obtain ⟨last, hlast, hnext⟩ := Option.map_eq_some_iff.mp hcookie
    obtain ⟨pages, hscan, hshown⟩ := ih hready (Nat.mod_lt _ (by decide))
    rw [← hnext] at hscan
    refine ⟨_, .page hreads (fun hnil => hpage (hempty.mp hnil)) hlast hscan, ?_⟩
    rw [List.flatten_cons, List.map_append, hshown, List.flatten_cons, List.map_append, hunpack,
      shown_receivedFrom]

/-! ## Dots -/

/-- No other entry stands behind `.` or `..`. -/
def DotsLast (entries : List Dirent) : Prop :=
  entries.Pairwise fun a b => a.isDot = true → b.isDot = true

theorem dotsLast_iff_settled (entries : List Dirent) :
    DotsLast entries ↔ Paging.Settled (fun de : Dirent => !de.isDot) entries := by
  have himp (a b : Dirent) : ((!b.isDot) = true → (!a.isDot) = true) ↔ (a.isDot = true → b.isDot = true) := by
    cases a.isDot <;> cases b.isDot <;> decide
  unfold Paging.Settled
  simp only [himp]
  rfl

theorem Reader.pager {r : Reader} (hfit : ∀ k, ∀ de ∈ listed entries, de.packedSize ≤ r.count k) :
    Paging.Pager (fun de : Dirent => !de.isDot) entries (r.pages entries) := by
  refine ⟨fun k offset => page_isPrefix _ _ _, fun k offset h => ?_⟩
  refine listed_eq_nil_of_page (fun de hde => hfit k de ?_) h
  exact ((List.drop_sublist offset entries).filter _).subset hde

theorem Reader.Scan.dotsLast {r : Reader} {e : FidEntry} {pages : List (List Received)}
    (h : Lists K e.fd opened entries during) (hdir : e.isDirectory = true) (hw : r.Ready e opened during w)
    (hfit : ∀ k, ∀ de ∈ listed entries, de.packedSize ≤ r.count k) (hscan : r.Scan K 0 0 w pages)
    (htotal : pages.flatten.length ≤ (listed entries).length) :
    DotsLast entries ∧ (listed entries).length < 2 ^ 64 := by
  obtain ⟨shown, hpaging, hshown⟩ := hscan.paging h hdir hw (by decide)
  have hlen := congrArg List.length hshown
  rw [List.length_map, List.length_map] at hlen
  rw [dotsLast_iff_settled]
  exact hpaging.settled (r.pager hfit) (by decide) (by rw [← hlen]; exact htotal)

/-- A client gets every entry of a directory once, and then an empty reply, exactly if the dots stand
last: the offset counts the entries that were packed, but skips entries of all kinds. -/
theorem directory_scan_iff {r : Reader} {e : FidEntry} (h : Lists K e.fd opened entries during)
    (hdir : e.isDirectory = true) (hw : r.Ready e opened during w)
    (hfit : ∀ k, ∀ de ∈ listed entries, de.packedSize ≤ r.count k) :
    r.ReturnsAll K w entries ↔ DotsLast entries ∧ (listed entries).length < 2 ^ 64 := by
  constructor
  · rintro ⟨pages, hscan, hperm⟩
    have hlen := hperm.length_eq
    rw [List.length_map, List.length_map] at hlen
    exact hscan.dotsLast h hdir hw hfit hlen.le
  · rintro ⟨hdots, hroom⟩
    obtain ⟨shown, hpaging, hall⟩ :=
      Paging.exists_scan (r.pager hfit) ((dotsLast_iff_settled entries).mp hdots) hroom 0
    obtain ⟨pages, hscan, hshown⟩ := Reader.exists_scan h hdir hpaging hw (by decide)
    refine ⟨pages, hscan, ?_⟩
    rw [hshown, hall]
    exact List.Perm.refl _

/-! ## A directory with a file -/

def dotEntry : Dirent := ⟨⟨[46], by decide⟩, DT_DIR, by decide⟩

def dotDotEntry : Dirent := ⟨⟨[46, 46], by decide⟩, DT_DIR, by decide⟩

/-- A file with the name `a`. -/
def fileEntry : Dirent := ⟨⟨[97], by decide⟩, 8, by decide⟩

/-- Every call succeeds, and every directory has these entries. -/
def Kernel.listing (entries : List Dirent) : Kernel Unit where
  numbering := .next
  answer
    | .opendir _, s => (some entries, s)
    | c, s => Kernel.willing.answer c s
  empty_name _ _ _ _ := rfl

theorem lists_listing (fd : Nat) (opened : Finset Nat) (entries : List Dirent) :
    Lists (Kernel.listing entries) fd opened entries fun _ => True where
  memory _ _ _ _ := rfl
  dup _ _ := rfl
  stream _ _ := rfl
  stays _ _ _ _ := trivial

def attachedEntry : FidEntry := ⟨0, 6, 1, P9_QID_DIR, .root⟩

def attachedWorld : World Unit where
  globals := { Globals.initial with
    fidMap := FidMap.empty.set ⟨0, by decide⟩ (some attachedEntry)
    fidCount := 1 }
  opened := {0, 1, 2, 3, 4, 5, 6}
  env := ()

/-- A client that asks for 8192 bytes each time. -/
def attachedReader : Reader where
  conn := 5
  tag := 1
  fid := 0
  count _ := 8192
  tag_lt := by decide
  fid_lt := by decide
  count_lt _ := by decide

theorem attachedReader_ready : attachedReader.Ready attachedEntry attachedWorld.opened (fun _ => True)
    attachedWorld where
  found := rfl
  opened_eq := rfl
  env := trivial

/-- The dots stand last. -/
theorem directory_scan_dots_last :
    attachedReader.ReturnsAll (Kernel.listing [fileEntry, dotEntry, dotDotEntry]) attachedWorld
      [fileEntry, dotEntry, dotDotEntry] := by
  refine (directory_scan_iff (lists_listing 6 _ _) (by decide) attachedReader_ready fun _ => ?_).mpr ?_
  · change ∀ de ∈ listed [fileEntry, dotEntry, dotDotEntry], de.packedSize ≤ 8192
    decide
  · exact ⟨by unfold DotsLast; decide, by decide⟩

/-- The dots stand first: the file is returned three times. -/
theorem directory_scan_repeats : ¬ ∀ (σ : Type) (K : Kernel σ) (r : Reader) (e : FidEntry)
    (opened : Finset Nat) (entries : List Dirent) (during : σ → Prop) (w : World σ),
    Lists K e.fd opened entries during → e.isDirectory = true → r.Ready e opened during w →
      (∀ k, ∀ de ∈ listed entries, de.packedSize ≤ r.count k) → r.ReturnsAll K w entries := by
  intro h
  have hlists := lists_listing 6 attachedWorld.opened [dotEntry, dotDotEntry, fileEntry]
  have hsize : ∀ de ∈ listed [dotEntry, dotDotEntry, fileEntry], de.packedSize ≤ 8192 := by decide
  have hfit (k : Nat) : ∀ de ∈ listed [dotEntry, dotDotEntry, fileEntry],
      de.packedSize ≤ attachedReader.count k := hsize
  obtain ⟨pages, hscan, hperm⟩ := h Unit _ _ attachedEntry _ _ _ _ hlists (by decide) attachedReader_ready hfit
  have hlen := hperm.length_eq
  rw [List.length_map, List.length_map] at hlen
  have hdots := (hscan.dotsLast hlists (by decide) attachedReader_ready hfit hlen.le).1
  unfold DotsLast at hdots
  exact absurd hdots (by decide)

end WslFreeBSD.Stub
