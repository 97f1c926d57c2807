import WslFreeBSD.Stub.Requests

/-!
# Steps of the stub file server

The calls of the server and its work on the fid table never fault, and neither do its looks at fields
of a request. A name is copied without a fault exactly if it fits the array with a NUL behind it.
-/

namespace WslFreeBSD.Stub

open Lib Config
open Lib.Faulting

variable {σ : Type} {K : Kernel σ} {conn tag : Nat} {body : Bytes} {w : World σ}

/-! ## Steps that cannot fault -/

theorem total_ask (c : Call) : Total (ask K c) := fun _ => ⟨_, rfl⟩

theorem total_malloc (size : Nat) : Total (malloc K size) := total_ask _

theorem total_opendir (fd : Nat) : Total (opendir K fd) := total_ask _

theorem total_pread (fd count offset : Nat) : Total (pread K fd count offset) := total_ask _

theorem total_pwrite (fd : Nat) (data : Bytes) (offset : Nat) : Total (pwrite K fd data offset) := total_ask _

theorem total_remove (path : Bytes) (directory : Bool) : Total (remove K path directory) := total_ask _

theorem total_acquire (what : Opening) : Total (acquire K what) := by
  intro w
  cases h : K.grants what w.env with
  | true => exact completes_of_ok (acquire_of_true h)
  | false => exact completes_of_ok (acquire_of_false h)

theorem total_close (fd : Nat) : Total (close K fd) := (total_ask _).bind fun _ => total_modify _

theorem total_closedir (fd : Nat) : Total (closedir K fd) := (total_ask _).bind fun _ => total_modify _

theorem total_p9SendResponse (conn type tag : Nat) (body : Bytes) :
    Total (p9SendResponse K conn type tag body) := (total_ask _).bind fun _ => total_modify _

theorem total_p9SendError (conn tag : Nat) (msg : String) : Total (p9SendError K conn tag msg) :=
  total_p9SendResponse _ _ _ _

theorem total_fidNextQpath : Total (fidNextQpath : Serving σ Nat) := fun _ => ⟨_, rfl⟩

theorem total_fidFind (fid : Nat) : Total (fidFind fid : Serving σ (Option FidEntry)) := fun _ => ⟨_, rfl⟩

theorem total_fidAdd (e : FidEntry) : Total (fidAdd e : Serving σ Bool) := by
  intro w
  cases h : w.globals.fidMap.add e with
  | none => exact completes_of_ok (fidAdd_of_none h)
  | some m => exact completes_of_ok (fidAdd_of_some h)

theorem total_fidRemove (fid : Nat) : Total (fidRemove K fid) := by
  refine total_get.bind fun w => ?_
  split
  · exact total_pure
  · exact (total_close _).bind fun _ => total_modify _

theorem total_fidReplace (e : FidEntry) : Total (fidReplace K e) := by
  refine total_get.bind fun w => ?_
  split
  · exact total_pure
  · exact (total_close _).bind fun _ => (total_modify _).bind fun _ => total_pure

/-! ## Fields -/

/-- The value of a field, which is 0 if the body is shorter than `least`. -/
def fieldAt (body : Bytes) (least off n : Nat) : Nat := if least ≤ body.length then leAt off n body else 0

theorem field_eq {least off n : Nat} (h : off + n ≤ least) :
    field body least off n = .ok (fieldAt body least off n) := by
  unfold field fieldAt
  split
  · exact readLE_eq (by omega)
  · rfl

theorem lift_field {least off n : Nat} (h : off + n ≤ least) :
    lift (field body least off n) w = .ok (fieldAt body least off n, w) := by
  rw [field_eq h]
  rfl

theorem total_field {least off n : Nat} (h : off + n ≤ least) :
    Total (lift (field body least off n) : Serving σ Nat) := fun _ => ⟨_, lift_field h⟩

theorem fieldAt_lt (body : Bytes) (least off n : Nat) : fieldAt body least off n < 256 ^ n := by
  unfold fieldAt
  split
  · exact leAt_lt off n body
  · exact Nat.pow_pos (by decide)

theorem writeBytes_text {cells data : Bytes} (h : data.length < cells.length) :
    ∃ rest, (writeBytes cells 0 data >>= fun cells => writeBytes cells data.length [0]) =
      .ok (data ++ 0 :: rest) := by
  have hfirst : writeBytes cells 0 data = .ok (data ++ cells.drop data.length) := by
    rw [writeBytes_eq (by omega), Nat.zero_add]
    rfl
  refine ⟨cells.drop (data.length + 1), ?_⟩
  rw [hfirst]
  change writeBytes (data ++ cells.drop data.length) data.length [0] = _
  rw [writeBytes_eq (by simp; omega), List.take_left, List.drop_append, List.drop_of_length_le (by simp)]
  simp

theorem writeBytes_text_error {cells data : Bytes} (h : cells.length ≤ data.length) :
    (writeBytes cells 0 data >>= fun cells => writeBytes cells data.length [0]) =
      .error .writeOutside := by
  by_cases heq : data.length = cells.length
  · rw [writeBytes_eq (by omega)]
    change writeBytes _ data.length [0] = _
    rw [writeBytes_error (by simp; omega)]
  · rw [writeBytes_error (by omega)]
    rfl

theorem copyName_of_fits {pos nameLen : Nat} (h : pos + nameLen ≤ body.length) :
    copyName body pos nameLen =
      ((writeBytes (List.replicate 256 0) 0 ((body.drop pos).take nameLen) >>= fun cells =>
        writeBytes cells ((body.drop pos).take nameLen).length [0]) >>= fun name =>
          pure ⟨cString name 0, nul_not_mem_cString name 0⟩) := by
  have hdata : ((body.drop pos).take nameLen).length = nameLen := by
    rw [List.length_take, List.length_drop]
    omega
  rw [copyName, readBytes_eq h, hdata, bind_assoc]
  rfl

theorem copyName_eq {pos nameLen : Nat} (h : pos + nameLen ≤ body.length) (hlen : nameLen < 256) :
    ∃ name : CStr, copyName body pos nameLen = .ok name ∧
      name.1 = ((body.drop pos).take nameLen).takeWhile (· ≠ 0) := by
  have hroom : ((body.drop pos).take nameLen).length < (List.replicate 256 (0 : UInt8)).length := by
    rw [List.length_take, List.length_replicate]
    omega
  obtain ⟨rest, hwrite⟩ := writeBytes_text hroom
  refine ⟨⟨_, nul_not_mem_cString (_ ++ 0 :: rest) 0⟩, by rw [copyName_of_fits h, hwrite]; rfl, ?_⟩
  change List.takeWhile _ (_ ++ 0 :: rest) = _
  rw [List.takeWhile_append]
  split
  · rename_i hall
    rw [List.takeWhile_cons_of_neg (by simp), List.append_nil]
    exact (List.takeWhile_prefix _).eq_of_length hall |>.symm
  · rfl

theorem copyName_error {pos nameLen : Nat} (h : pos + nameLen ≤ body.length) (hlen : 256 ≤ nameLen) :
    copyName body pos nameLen = .error .writeOutside := by
  have hroom : (List.replicate 256 (0 : UInt8)).length ≤ ((body.drop pos).take nameLen).length := by
    rw [List.length_take, List.length_replicate, List.length_drop]
    omega
  rw [copyName_of_fits h, writeBytes_text_error hroom]
  rfl

/-! ## Whole requests -/

theorem of_malloc {size : Nat} {got : Bool} {w' : World σ} (h : malloc K size w = .ok (got, w')) :
    w'.globals = w.globals ∧ w'.opened = w.opened := by
  obtain ⟨-, rfl⟩ := Prod.mk.inj (Except.ok.inj h)
  exact ⟨rfl, rfl⟩

theorem p9Readn_append {m more : Bytes} {n : Nat} (h : n ≤ m.length) :
    p9Readn (m ++ more) n = some (m.take n, m.drop n ++ more) := by
  rw [p9Readn, if_pos (by rw [List.length_append]; omega), List.take_append_of_le_length h,
    List.drop_append_of_le_length h]

theorem p9HandleRequest_append {m more : Bytes} (hsize : leAt 0 4 m = m.length) (hmin : 7 ≤ m.length)
    (hmax : m.length ≤ P9_MAXMSIZE) :
    p9HandleRequest K conn (m ++ more) w = (malloc K (m.length - 4) >>= fun got =>
      if got = true then
        p9Dispatch K conn (leAt 5 2 m) (m.drop 7) (leAt 4 1 m) >>= fun _ => pure (some more)
      else pure none) w := by
  have htake : leAt 0 4 (m.take 4) = m.length := (leAt_take (by omega)).trans hsize
  have hrest : (m.drop 4).length = m.length - 4 := List.length_drop
  rw [p9HandleRequest, p9Readn_append (by omega)]
  dsimp only
  rw [htake, if_neg (by omega)]
  obtain ⟨⟨got, w'⟩, hgot⟩ := total_malloc (K := K) (m.length - 4) w
  rw [bind_of_ok hgot, bind_of_ok hgot]
  cases got with
  | false => rfl
  | true =>
    rw [if_pos rfl, if_pos rfl, p9Readn_append (by omega), ← hrest, List.take_length, List.drop_length]
    dsimp only
    rw [readLE_eq (by omega), bind_of_ok lift_ok, readLE_eq (by omega), bind_of_ok lift_ok, leAt_drop,
      leAt_drop, List.drop_drop]
    rfl

end WslFreeBSD.Stub
