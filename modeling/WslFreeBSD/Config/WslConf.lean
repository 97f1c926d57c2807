import Mathlib.Data.List.DropRight
import Mathlib.Logic.Function.Basic
import WslFreeBSD.Lib.CText
import WslFreeBSD.Lib.Lines

/-!
# The parser of wsl.conf

`wsl_conf_parser.h`. The structure `wsl_conf` has one member for each of the 24 known keys; here
the members are indexed by `Field`, and what the branches of `wsl_conf_apply` differ in (the names,
the bit of the mask, the conversion) is the `Entry` of the field. The branches are tried in the
order of `fields`.

A stream is the text of the file. Messages on the console are left out, and allocations succeed.
-/

namespace WslFreeBSD.Config

open Lib

/-! ## The configuration -/

/-- The members of `struct wsl_conf` for the keys of the file. -/
inductive Field where
  | automountEnabled | automountRoot | automountOptions | automountMountfstab | automountLdconfig
  | filesystemUmask
  | interopEnabled | interopAppendWindowsPath
  | networkGenerateHosts | networkGenerateResolvconf | networkHostname
  | timeUseWindowsTimezone
  | fileserverEnabled | fileserverLogFile | fileserverLogLevel | fileserverLogTruncate
  | gpuEnabled | gpuAppendLibPath
  | userDefault
  | bootCommand | bootSystemd | bootInitTimeout | bootProtectBinfmt
  | generalGuiApplications
  deriving DecidableEq, Repr

/-- How the text of a value is stored. -/
inductive Conversion where
  /-- `wsl_conf_parse_bool` -/
  | bool
  /-- `wsl_conf_parse_int` -/
  | int
  /-- as it is -/
  | text
  /-- with a slash at the end -/
  | directory
  /-- as 0, if it is a boolean at all -/
  | forcedFalse
  deriving DecidableEq, Repr

/-- What a branch of `wsl_conf_apply` consists of: the arguments of `MATCH` and the conversion. -/
structure Entry where
  inSection : String
  key : String
  bit : Nat
  conversion : Conversion

def Field.entry : Field → Entry
  | .automountEnabled => ⟨"automount", "enabled", 0, .bool⟩
  | .automountRoot => ⟨"automount", "root", 1, .directory⟩
  | .automountOptions => ⟨"automount", "options", 2, .text⟩
  | .automountMountfstab => ⟨"automount", "mountfstab", 3, .bool⟩
  | .automountLdconfig => ⟨"automount", "ldconfig", 4, .bool⟩
  | .filesystemUmask => ⟨"filesystem", "umask", 5, .int⟩
  | .interopEnabled => ⟨"interop", "enabled", 6, .bool⟩
  | .interopAppendWindowsPath => ⟨"interop", "appendwindowspath", 7, .bool⟩
  | .networkGenerateHosts => ⟨"network", "generatehosts", 8, .bool⟩
  | .networkGenerateResolvconf => ⟨"network", "generateresolvconf", 9, .bool⟩
  | .networkHostname => ⟨"network", "hostname", 10, .text⟩
  | .timeUseWindowsTimezone => ⟨"time", "usewindowstimezone", 11, .bool⟩
  | .fileserverEnabled => ⟨"fileserver", "enabled", 12, .bool⟩
  | .fileserverLogFile => ⟨"fileserver", "logfile", 13, .text⟩
  | .fileserverLogLevel => ⟨"fileserver", "loglevel", 14, .int⟩
  | .fileserverLogTruncate => ⟨"fileserver", "logtruncate", 15, .bool⟩
  | .gpuEnabled => ⟨"gpu", "enabled", 16, .bool⟩
  | .gpuAppendLibPath => ⟨"gpu", "appendlibpath", 17, .bool⟩
  | .userDefault => ⟨"user", "default", 18, .text⟩
  | .bootCommand => ⟨"boot", "command", 19, .text⟩
  | .bootSystemd => ⟨"boot", "systemd", 20, .forcedFalse⟩
  | .bootInitTimeout => ⟨"boot", "inittimeout", 21, .int⟩
  | .bootProtectBinfmt => ⟨"boot", "protectbinfmt", 22, .bool⟩
  | .generalGuiApplications => ⟨"general", "guiapplications", 23, .bool⟩

/-- The branches of `wsl_conf_apply`, in their order. -/
def fields : List Field :=
  [.automountEnabled, .automountRoot, .automountOptions, .automountMountfstab, .automountLdconfig,
    .filesystemUmask, .interopEnabled, .interopAppendWindowsPath, .networkGenerateHosts,
    .networkGenerateResolvconf, .networkHostname, .timeUseWindowsTimezone, .fileserverEnabled,
    .fileserverLogFile, .fileserverLogLevel, .fileserverLogTruncate, .gpuEnabled, .gpuAppendLibPath,
    .userDefault, .bootCommand, .bootSystemd, .bootInitTimeout, .bootProtectBinfmt,
    .generalGuiApplications]

/-- The value of a member: an `int`, or a string or `NULL`. -/
inductive Value where
  | int (n : Int)
  | text (s : Option Bytes)
  deriving DecidableEq, Repr

/-- `struct wsl_conf`. -/
structure WslConf where
  value : Field → Value
  parsed : Bool
  keyCount : Nat
  seenMask : BitVec 32

/-- The values of `wsl_conf_init`. -/
def defaultValue : Field → Value
  | .automountEnabled => .int 1
  | .automountRoot => .text (some (ascii "/mnt/"))
  | .automountOptions => .text none
  | .automountMountfstab => .int 1
  | .automountLdconfig => .int 1
  | .filesystemUmask => .int 18
  | .interopEnabled => .int 1
  | .interopAppendWindowsPath => .int 1
  | .networkGenerateHosts => .int 1
  | .networkGenerateResolvconf => .int 1
  | .networkHostname => .text none
  | .timeUseWindowsTimezone => .int 1
  | .fileserverEnabled => .int 1
  | .fileserverLogFile => .text none
  | .fileserverLogLevel => .int 2
  | .fileserverLogTruncate => .int 1
  | .gpuEnabled => .int 1
  | .gpuAppendLibPath => .int 1
  | .userDefault => .text none
  | .bootCommand => .text none
  | .bootSystemd => .int 0
  | .bootInitTimeout => .int 10000
  | .bootProtectBinfmt => .int 1
  | .generalGuiApplications => .int 0

/-- `wsl_conf_init`. -/
def wslConfInit : WslConf := ⟨defaultValue, false, 0, 0⟩

/-! ## Values -/

/-- `wsl_conf_parse_bool`; nothing stands for -1. -/
def wslConfParseBool (value : Bytes) : Option Int :=
  if eqIgnoringCase value (ascii "true") ∨ value = ascii "1" then some 1
  else if eqIgnoringCase value (ascii "false") ∨ value = ascii "0" then some 0
  else none

/-- `wsl_conf_parse_int`. -/
def wslConfParseInt (value : Bytes) : Option Int :=
  match strtolAuto value with
  | some (v, []) => if -2 ^ 31 ≤ v ∧ v ≤ 2 ^ 31 - 1 then some v else none
  | _ => none

def isBlank (c : UInt8) : Bool := c = 32 || c = 9

/-- What `wsl_conf_strip` removes at the end. -/
def isTrailing (c : UInt8) : Bool := c = 32 || c = 9 || c = 13 || c = 10

/-- `wsl_conf_strip`. -/
def wslConfStrip (s : Bytes) : Bytes := (s.dropWhile isBlank).rdropWhile isTrailing

/-- `wsl_conf_unescape`. -/
def wslConfUnescape : Bytes → Bytes
  | 92 :: c :: s =>
    if c = 92 then 92 :: wslConfUnescape s
    else if c = 34 then 34 :: wslConfUnescape s
    else if c = 98 then 8 :: wslConfUnescape s
    else if c = 110 then 10 :: wslConfUnescape s
    else if c = 116 then 9 :: wslConfUnescape s
    else if c = 10 then wslConfUnescape s
    else 92 :: wslConfUnescape (c :: s)
  | c :: s => c :: wslConfUnescape s
  | [] => []

/-- The text up to the closing quote, or up to the end if there is none. -/
def quotedText : Bytes → Bytes
  | 92 :: c :: s => 92 :: c :: quotedText s
  | c :: s => if c = 34 then [] else c :: quotedText s
  | [] => []

/-- The value that a stripped text after the `=` stands for. -/
def valueOf : Bytes → Bytes
  | [] => []
  | 34 :: start => wslConfUnescape (quotedText start)
  | value => wslConfUnescape (wslConfStrip (value.takeWhile (· ≠ 35)))

/-- `wsl_conf_extract_value`. -/
def wslConfExtractValue (line : Bytes) : Option Bytes :=
  if 61 ∉ line then none else some (valueOf (wslConfStrip (line.dropWhile (· ≠ 61)).tail))

/-- The trailing slash of `automount_root`; an empty root stays empty. -/
def withSlash (root : Bytes) : Bytes :=
  if root ≠ [] ∧ root.getLast? ≠ some 47 then root ++ [47] else root

/-- The value that is stored for a text, unless it is not of the type of the key. -/
def Conversion.convert : Conversion → Bytes → Option Value
  | .bool, value => (wslConfParseBool value).map .int
  | .int, value => (wslConfParseInt value).map .int
  | .text, value => some (.text (some value))
  | .directory, value => some (.text (some (withSlash value)))
  | .forcedFalse, value => (wslConfParseBool value).map fun _ => .int 0

/-! ## Keys -/

/-- The test of the mask in `MATCH`. -/
def WslConf.seen (conf : WslConf) (f : Field) : Bool := conf.seenMask &&& (1#32 <<< f.entry.bit) ≠ 0#32

/-- The names of a section and a key are those of the field. -/
def Field.named (f : Field) (inSection key : Bytes) : Bool :=
  eqIgnoringCase inSection (ascii f.entry.inSection) && eqIgnoringCase key (ascii f.entry.key)

/-- The branch of a field whose `MATCH` holds. -/
def applyField (conf : WslConf) (f : Field) (value : Bytes) : WslConf :=
  let conf := { conf with seenMask := conf.seenMask ||| (1#32 <<< f.entry.bit) }
  match f.entry.conversion.convert value with
  | none => conf
  | some v => { conf with value := Function.update conf.value f v, keyCount := conf.keyCount + 1 }

/-- `wsl_conf_apply`, with its result. -/
def wslConfApply (conf : WslConf) (inSection key value : Bytes) : WslConf × Bool :=
  match fields.find? fun f => f.named inSection key && !conf.seen f with
  | none => (conf, false)
  | some f => (applyField conf f value, true)

/-! ## Lines -/

/-- The locals of `wsl_conf_parse_stream`. -/
structure ParseState where
  conf : WslConf
  currentSection : Bytes

/-- The section that a header with the given name opens. -/
def openSection (name : Bytes) : Bytes :=
  let name := name.take 127
  if (name.head?.any isAlpha) then name else []

def parseLine (st : ParseState) (line : Bytes) : ParseState :=
  let p := wslConfStrip (cString line 0)
  if p = [] ∨ p.head? = some 35 then st
  else if p.head? = some 91 then
    if 93 ∈ p then { st with currentSection := openSection (p.tail.takeWhile (· ≠ 93)) } else st
  else if st.currentSection = [] then st
  else
    match wslConfExtractValue p with
    | none => st
    | some value =>
      { st with conf :=
          (wslConfApply st.conf st.currentSection (wslConfStrip (p.takeWhile (· ≠ 61))) value).1 }

/-- `wsl_conf_parse_stream`. -/
def wslConfParseStream (conf : WslConf) (stream : Bytes) : WslConf :=
  let st := (fgetsAll 4096 stream).foldl parseLine ⟨conf, []⟩
  { st.conf with parsed := true }

/-- `wsl_conf_parse_file`, for a file that exists or does not. -/
def wslConfParseFile (conf : WslConf) : Option Bytes → WslConf
  | none => { conf with parsed := true }
  | some stream => wslConfParseStream conf stream

end WslFreeBSD.Config
