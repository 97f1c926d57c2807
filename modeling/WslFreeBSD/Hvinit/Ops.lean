import WslFreeBSD.Config.Initialize
import WslFreeBSD.Config.WslConf
import WslFreeBSD.Lib.Program

/-!
# `hvinit` and its environment

The first process of the guest (`hvinit.c` with the headers it includes), as programs that call
the operating system. A program is started with the globals of the process and returns them.

The environment answers every call as it likes; what a group of results needs to know about the
answers is a hypothesis there. Results of calls that only go to the log are not part of the
answer. Output on the console is left out, and allocations succeed.
-/

namespace WslFreeBSD.Hvinit

open Lib Protocol Config

/-! ## Operations -/

inductive Channel where
  | capability
  | notify
  | init
  deriving DecidableEq, Repr

inductive Signal where
  | term
  | kill
  deriving DecidableEq, Repr

/-- How `waitpid` on one child returns. `running` is the 0 of `WNOHANG`. -/
inductive Waited where
  | collected
  | running
  | failed
  deriving DecidableEq, Repr

/-- How `unmount` returns. -/
inductive Unmounted where
  | done
  | busy
  | failed
  deriving DecidableEq, Repr

/-- How a file that is opened for writing takes its contents: `fopen` fails, or `fclose` does, or
neither. -/
inductive FileWritten where
  | notOpened
  | notClosed
  | written
  deriving DecidableEq, Repr

/-- What is found in a file that is opened for reading. -/
inductive FileRead where
  | missing
  | failed
  | contents (bytes : Bytes)
  deriving DecidableEq, Repr

/-- What a server needs before it can `fork`. -/
inductive Acquired where
  | rootDirectory
  | plan9Listener (port : Nat)
  | pipe
  | relayListener (port : Nat)
  deriving DecidableEq, Repr

/-- The `release` of a `struct utsname`, an array of 256 characters. -/
abbrev Release := { s : Bytes // s.length < 256 }

/-- What `hvinit` asks of its environment. -/
inductive Op where
  /-- `send` or `send_all` of a whole message -/
  | send (channel : Channel) (message : Bytes)
  /-- `hv_connect` -/
  | hvConnect (port : Nat)
  /-- the guest capabilities on the capability channel -/
  | sendCapabilities
  /-- the first message on the capability channel -/
  | recvCapabilities
  | stat (path : Bytes)
  /-- `mkdir`; an existing directory counts as made -/
  | mkdir (path : Bytes)
  | mount (fstype dir : Bytes)
  | unmount (dir : Bytes) (force : Bool)
  | sync
  | fork
  | kill (pid : Nat) (signal : Signal)
  | waitpid (pid : Nat) (nohang : Bool)
  /-- `waitpid(-1, &status, WNOHANG)` until it collects no child -/
  | waitAny
  | acquire (what : Acquired)
  | system (command : Bytes)
  | uname
  | getenv (name : Bytes)
  | setenv (name value : Bytes)
  | readFile (path : Bytes)
  | writeFile (path contents : Bytes)
  | rename (source target : Bytes)
  | unlink (path : Bytes)
  | symlink (target path : Bytes)
  | access (path : Bytes)
  | sethostname (name : Bytes)
  | setdomainname (name : Bytes)
  | getpwnam (name : Bytes)
  | getpwuid (uid : Nat)
  deriving DecidableEq, Repr

abbrev Op.Answer : Op → Type
  | .hvConnect _ | .sendCapabilities | .recvCapabilities => Bool
  | .stat _ | .mkdir _ | .mount _ _ | .acquire _ => Bool
  | .rename _ _ | .symlink _ _ | .access _ | .sethostname _ => Bool
  | .unmount _ _ => Unmounted
  | .fork => Option Nat
  | .waitpid _ _ => Waited
  | .waitAny => List Nat
  | .uname => Option Release
  | .getenv _ => Option Bytes
  | .readFile _ => FileRead
  | .writeFile _ _ => FileWritten
  | .getpwnam _ => Option UInt32
  | .getpwuid _ => Option Nat
  | _ => Unit

abbrev InitProgram := Program Op Op.Answer

abbrev InitTrace := Program.Trace Op Op.Answer

abbrev InitEnvironment := Program.Environment Op Op.Answer

/-- An environment in which calls succeed, children exit when they are told to, and there are no
files, variables or users. -/
def plainEnvironment : InitEnvironment := fun t e =>
  match e with
  | .hvConnect _ | .sendCapabilities | .recvCapabilities => true
  | .stat _ | .mkdir _ | .mount _ _ | .acquire _ => true
  | .rename _ _ | .symlink _ _ | .access _ | .sethostname _ => true
  | .unmount _ _ => Unmounted.done
  | .fork => some (100 + t.length)
  | .waitpid _ _ => Waited.collected
  | .waitAny => ([] : List Nat)
  | .uname => (none : Option Release)
  | .getenv _ => (none : Option Bytes)
  | .readFile _ => FileRead.missing
  | .writeFile _ _ => FileWritten.written
  | .getpwnam _ => (none : Option UInt32)
  | .getpwuid _ => (none : Option Nat)
  | .send _ _ | .sync | .kill _ _ | .system _ | .setenv _ _ => ()
  | .unlink _ | .setdomainname _ => ()

/-- The subsystem an operation belongs to. -/
inductive Subsystem where
  | channels
  | mounts
  | processes
  | files
  | names
  | system
  deriving DecidableEq, Repr

def Op.subsystem : Op → Subsystem
  | .send _ _ => .channels
  | .mount _ _ | .unmount _ _ => .mounts
  | .fork | .kill _ _ | .waitpid _ _ | .waitAny => .processes
  | .readFile _ | .writeFile _ _ | .rename _ _ | .unlink _ | .symlink _ _ => .files
  | .sethostname _ | .setdomainname _ => .names
  | _ => .system

/-- Only operations of some subsystems are called. -/
def Uses {α : Type} (subsystems : List Subsystem) (p : InitProgram α) : Prop :=
  p.Only fun e => e.subsystem ∈ subsystems

theorem Uses.mono {α : Type} {ss ss' : List Subsystem} {p : InitProgram α} (hp : Uses ss p)
    (h : ss ⊆ ss') : Uses ss' p := Program.Only.mono hp fun _ he => h he

theorem uses_perform {ss : List Subsystem} {e : Op} (he : e.subsystem ∈ ss) :
    Uses ss (Program.perform e : InitProgram (Op.Answer e)) := Program.only_perform he

theorem uses_self (e : Op) : Uses [e.subsystem] (Program.perform e : InitProgram (Op.Answer e)) :=
  uses_perform List.mem_cons_self

theorem Uses.hidden {α δ : Type} {ss : List Subsystem} {p : InitProgram α} (hp : Uses ss p)
    {f : (Σ e, Op.Answer e) → Option δ} {seen : Subsystem}
    (hf : ∀ e r, e.subsystem ≠ seen → f ⟨e, r⟩ = none) (hseen : seen ∉ ss) :
    p.Shows f fun _ o => o = [] :=
  Program.Only.hidden hp fun e r he => hf e r fun h => hseen (h ▸ he)

/-! ## Globals -/

/-- `g_plan9`, without its pipe. -/
structure Plan9 where
  childPid : Option Nat := none
  port : Nat := 0
  started : Bool := false
  deriving DecidableEq, Repr

/-- The globals of the process. A configuration is present if it was parsed. -/
structure Globals where
  config : Option WslConfig := none
  wslConf : Option WslConf := none
  mountedFs : List Bytes := []
  gnsPid : Option Nat := none
  plan9 : Plan9 := {}
  generateResolvconf : Bool := true
  resolvconfPath : Bytes := ascii "/etc/resolv.conf"

/-- A string member of the configuration file, or `NULL`. -/
def confText (conf : WslConf) (f : Field) : Option Bytes :=
  match conf.value f with
  | .text s => s
  | .int _ => none

def confFlag (conf : WslConf) (f : Field) : Bool :=
  match conf.value f with
  | .int n => n ≠ 0
  | .text s => s.isSome

namespace Globals

/-- `g_wsl_conf_parsed ? g_wsl_conf.f : 1`. -/
def flag (g : Globals) (f : Field) : Bool := (g.wslConf.map (confFlag · f)).getD true

/-- `g_wsl_conf_parsed ? g_wsl_conf.f : NULL`. -/
def text (g : Globals) (f : Field) : Option Bytes := g.wslConf.bind (confText · f)

/-- `g_config_parsed ? g_config.feature_flags : 0`. -/
def featureFlags (g : Globals) : UInt32 := (g.config.map WslConfig.featureFlags).getD 0

end Globals

/-! ## Messages -/

def PORT_HVS : Nat := 50000
def PORT_HVS_GNS : Nat := 50001
def PORT_HVS_BSD : Nat := 60000
def LX_INIT_UTILITY_VM_PLAN9_PORT : Nat := 50001

def send (channel : Channel) (message : Bytes) : InitProgram Unit :=
  Program.perform (Op.send channel message)

/-- A `RESULT_MESSAGE` with a result of at most 32 bits. -/
def resultMessage (type seq result : Nat) : Bytes := header type 16 seq ++ leBytes 4 result

/-- Sends a `RESULT_MESSAGE_INT32`; -1 is the result of a request that is too small. -/
def sendResultInt32 (seq : Nat) (result : Int) : InitProgram Unit :=
  send .init (resultMessage LxMessageResultInt32 seq (result % 2 ^ 32).toNat)

def sendResultUint32 (seq result : Nat) : InitProgram Unit :=
  send .init (resultMessage LxMessageResultUint32 seq result)

def sendResultBool (seq : Nat) (result : Bool) : InitProgram Unit :=
  send .init (resultMessage LxMessageResultBool seq result.toNat)

end WslFreeBSD.Hvinit
