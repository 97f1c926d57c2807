import WslFreeBSD.Config.Initialize
import WslFreeBSD.Lib.CBuffer
import WslFreeBSD.Lib.SlotTable

/-!
# The fid table of the stub file server

The test build of `plan9_server.h` serves 9P itself. Its fids stand in `g_fid_map`, an array of 64
slots with a descriptor and a path each; a slot without a descriptor is free.
-/

namespace WslFreeBSD.Stub

open Lib Config

def MAX_FID_MAP : Nat := 64

def P9_QID_DIR : Nat := 0x80

/-! ## Paths -/

/-- The text of a `char path[512]`. -/
abbrev FidPath := { s : Bytes // 0 ∉ s ∧ s.length < 512 }

theorem fits_snprintf {s : Bytes} (hnul : 0 ∉ s) : 0 ∉ snprintf 512 s ∧ (snprintf 512 s).length < 512 := by
  refine ⟨fun h => hnul (List.mem_of_mem_take h), ?_⟩
  rw [snprintf, List.length_take]
  omega

/-- `snprintf(path, sizeof(path), "%s", s)`. -/
def printPath (s : CStr) : FidPath := ⟨snprintf 512 s, fits_snprintf s.2⟩

def FidPath.root : FidPath := ⟨[], by simp, by simp⟩

theorem nul_not_mem_slash {s t : Bytes} (hs : 0 ∉ s) (ht : 0 ∉ t) : 0 ∉ s ++ 47 :: t := by
  rw [List.mem_append, List.mem_cons]
  rintro (h | h | h)
  · exact hs h
  · cases h
  · exact ht h

def childPath (parent : FidPath) (name : CStr) : FidPath :=
  if parent.1 = [] then printPath name
  else printPath ⟨parent.1 ++ 47 :: name.1, nul_not_mem_slash parent.2.1 name.2⟩

/-- `fullpath`, the path of a fid below `g_root_path`. -/
def fullPath (rootPath : CStr) (path : FidPath) : FidPath :=
  if path.1 = [] then printPath rootPath
  else printPath ⟨rootPath.1 ++ 47 :: path.1, nul_not_mem_slash rootPath.2 path.2.1⟩

/-! ## The table -/

/-- `struct fid_entry`, of a slot that is used. -/
structure FidEntry where
  fid : Nat
  fd : Nat
  qpath : Nat
  qtype : Nat
  path : FidPath
  deriving DecidableEq

def FidEntry.isDirectory (e : FidEntry) : Bool := e.qtype.testBit 7

/-- `g_fid_map`. -/
abbrev FidMap := Fin MAX_FID_MAP → Option FidEntry

def FidMap.empty : FidMap := fun _ => none

/-- The fid of a slot, which is 0 in a slot that is free. -/
def slotFid (slot : Option FidEntry) : Nat := slot.elim 0 FidEntry.fid

/-- The slot in which `fid_find` finds a fid, with what stands there. -/
def FidMap.locate (m : FidMap) (fid : Nat) : Option (Fin MAX_FID_MAP × FidEntry) :=
  (lookup Option.isSome slotFid m fid).bind fun i => (m i).map fun e => (i, e)

/-- `fid_find`. -/
def FidMap.find (m : FidMap) (fid : Nat) : Option FidEntry := (m.locate fid).map Prod.snd

def FidMap.set (m : FidMap) (i : Fin MAX_FID_MAP) (slot : Option FidEntry) : FidMap := Function.update m i slot

/-- `fid_add`, without the counter. -/
def FidMap.add (m : FidMap) (e : FidEntry) : Option FidMap :=
  (firstFree Option.isSome m).map fun i => m.set i (some e)

variable {m : FidMap} {fid : Nat} {e : FidEntry} {i : Fin MAX_FID_MAP}

theorem FidMap.locate_spec (h : m.locate fid = some (i, e)) : m i = some e ∧ e.fid = fid := by
  obtain ⟨j, hj, hmap⟩ := Option.bind_eq_some_iff.mp h
  obtain ⟨e', he', heq⟩ := Option.map_eq_some_iff.mp hmap
  cases heq
  have hfid := (lookup_spec hj).2
  rw [he'] at hfid
  exact ⟨he', hfid⟩

theorem FidMap.locate_eq_none_iff : m.locate fid = none ↔ ∀ i e, m i = some e → e.fid ≠ fid := by
  constructor
  · intro h i e he
    cases hlookup : lookup Option.isSome slotFid m fid with
    | none =>
      have hne := lookup_eq_none_iff.mp hlookup i (by rw [he]; rfl)
      rwa [he] at hne
    | some j =>
      obtain ⟨e', he'⟩ := Option.isSome_iff_exists.mp (lookup_spec hlookup).1
      rw [locate, hlookup, Option.bind_some, he'] at h
      cases h
  · intro h
    have hlookup : lookup Option.isSome slotFid m fid = none := by
      refine lookup_eq_none_iff.mpr fun i hi => ?_
      obtain ⟨e, he⟩ := Option.isSome_iff_exists.mp hi
      rw [he]
      exact h i e he
    rw [locate, hlookup]
    rfl

theorem FidMap.find_eq_none_iff : m.find fid = none ↔ ∀ i e, m i = some e → e.fid ≠ fid := by
  rw [find, Option.map_eq_none_iff, locate_eq_none_iff]

theorem FidMap.add_eq_some {m' : FidMap} (h : m.add e = some m') :
    ∃ i, m i = none ∧ m' = m.set i (some e) := by
  obtain ⟨i, hi, rfl⟩ := Option.map_eq_some_iff.mp h
  exact ⟨i, by simpa using used_firstFree hi, rfl⟩

end WslFreeBSD.Stub
