import WslFreeBSD.Lib.CText
import WslFreeBSD.Lib.PathText

/-!
# Drives and their mount points

The loop of `drvfs_mount_volumes` (`drvfs_mount.h`): which source it mounts on which target.
-/

namespace WslFreeBSD.Paths

open Lib

/-- The source of a drive: `"%c:\"`. -/
def driveSource (index : Nat) : Bytes := [UInt8.ofNat (65 + index), 58, 92]

/-- `"%.*s"`; a negative precision is none. -/
def printPrecision (precision : Int) (s : Bytes) : Bytes :=
  if precision < 0 then s else s.take precision.toNat

/-- The root that is used; an empty one is `/mnt`. -/
def rootOrDefault (root : Bytes) : Bytes := if root = [] then ascii "/mnt" else root

/-- The mount point of a drive in the buffer of 256 bytes. -/
def driveTarget (root : Bytes) (index : Nat) : Bytes :=
  let root := rootOrDefault root
  let precision := toInt32 (withoutTrailingSlash root).length
  snprintf 256 (printPrecision precision root ++ [47, UInt8.ofNat (97 + index)])

/-- The sources and targets that `drvfs_mount_volumes` passes to `drvfs_mount_single`, by the set
bits from the lowest one. -/
def drvfsMountVolumes (bitmap : BitVec 32) (root : Bytes) : List (Bytes × Bytes) :=
  ((List.range 32).filter (bitmap.getLsbD ·)).map fun index => (driveSource index, driveTarget root index)

/-- The precision is the length of the root without its slashes, if that is an `int`. -/
theorem driveTarget_eq_of_length {root : Bytes}
    (h : (withoutTrailingSlash (rootOrDefault root)).length < 2 ^ 31) (index : Nat) :
    driveTarget root index =
      snprintf 256 (withoutTrailingSlash (rootOrDefault root) ++ [47, UInt8.ofNat (97 + index)]) := by
  have hint : toInt32 ((withoutTrailingSlash (rootOrDefault root)).length : Int) =
      (withoutTrailingSlash (rootOrDefault root)).length := by
    unfold toInt32
    omega
  rw [driveTarget, printPrecision]
  simp only [hint]
  rw [if_neg (by omega), Int.toNat_natCast]
  rw [← List.prefix_iff_eq_take.mp (withoutTrailingSlash_isPrefix (rootOrDefault root))]

end WslFreeBSD.Paths
