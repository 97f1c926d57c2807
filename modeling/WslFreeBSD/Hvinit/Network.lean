import Mathlib.Data.List.DropRight
import WslFreeBSD.Hvinit.Ops

/-!
# Host names and configuration files of `hvinit`

The names and the files of the network (`network_config.h`, `gns_handle_network_information`) and
of the time zone (`timezone_handler.h`).
-/

namespace WslFreeBSD.Hvinit

open Lib Protocol

/-! ## Host names -/

def NETC_DEFAULT_HOSTNAME : Bytes := ascii "localhost"
def NETC_DEFAULT_DOMAIN : Bytes := ascii "localdomain"
def NETC_HOSTNAME_FILE : Bytes := ascii "/etc/hostname"
def NETC_HOSTS_FILE : Bytes := ascii "/etc/hosts"

/-- A string that may be `NULL`, if there is text in it. -/
def nonEmpty (s : Option Bytes) : Option Bytes := s.filter (· ≠ [])

def isNameChar (c : UInt8) : Bool := isAlpha c || isDecDigit c || c = 45 || c = 46

/-- The loop of `network_clean_hostname` on one character: the name so far and `saw_dot`. The
buffer has room for 64 characters. -/
def cleanStep (st : Bytes × Bool) (c : UInt8) : Bytes × Bool :=
  if 64 ≤ st.1.length ∨ ¬ isNameChar c then st
  else if c = 46 ∧ st.2 then st
  else if st.1 = [] ∧ (c = 45 ∨ c = 46) then (st.1, st.2 || c = 46)
  else (st.1 ++ [c], st.2 || c = 46)

/-- `network_clean_hostname` with a buffer of 65 bytes. -/
def networkCleanHostname (src : Option Bytes) : Bytes :=
  match src with
  | none | some [] => NETC_DEFAULT_HOSTNAME
  | some src =>
    let name := (src.foldl cleanStep ([], false)).1.rdropWhile fun c => c = 45 || c = 46
    if name = [] then NETC_DEFAULT_HOSTNAME else name

/-- The name that `network_apply_hostname` uses: `[network] hostname`, or the name from the host. -/
def rawHostname (hostname confHostname : Option Bytes) : Bytes :=
  ((nonEmpty confHostname).or (nonEmpty hostname)).getD NETC_DEFAULT_HOSTNAME

/-- `network_apply_hostname`. -/
def networkApplyHostname (hostname confHostname : Option Bytes) : InitProgram Unit := do
  let clean := networkCleanHostname (some (rawHostname hostname confHostname))
  let accepted ← Program.perform (Op.sethostname clean)
  if ¬ accepted ∧ clean ≠ NETC_DEFAULT_HOSTNAME then
    let _ ← Program.perform (Op.sethostname NETC_DEFAULT_HOSTNAME)
  Program.perform (Op.setenv (ascii "NAME") clean)
  let _ ← Program.perform (Op.writeFile NETC_HOSTNAME_FILE (clean ++ [10]))

/-- `network_apply_domainname`. -/
def networkApplyDomainname (domainname : Option Bytes) : InitProgram Unit :=
  match nonEmpty domainname with
  | none => pure ()
  | some domain => Program.perform (Op.setdomainname domain)

/-- A text with a newline at its end, unless it is empty. -/
def withNewline (text : Bytes) : Bytes :=
  if text ≠ [] ∧ text.getLast? ≠ some 10 then text ++ [10] else text

/-- The text of `/etc/hosts` before the host name. -/
def hostsHeader : Bytes :=
  ascii "This file was automatically generated by WSL. To prevent automatic generation of this file, add the following entry to /etc/wsl.conf:\n" ++
    ascii "# [network]\n# generateHosts = false\n\n127.0.0.1\tlocalhost\n127.0.1.1\t"

/-- The text of `/etc/hosts` after the line of the host name. -/
def hostsTrailer (windowsHosts : Option Bytes) : Bytes :=
  ((nonEmpty windowsHosts).map fun hosts =>
    ascii "\n# Windows hosts file entries\n" ++ withNewline hosts).getD [] ++
  ascii "\n# The following lines are desirable for IPv6 capable hosts\n" ++
    ascii "::1     ip6-localhost ip6-loopback\nfe00::0 ip6-localnet\nff00::0 ip6-mcastprefix\n" ++
    ascii "ff02::1 ip6-allnodes\nff02::2 ip6-allrouters\n"

/-- `/etc/hosts` with the line of a host name. -/
def hostsFile (host : Bytes) (domainname windowsHosts : Option Bytes) : Bytes :=
  hostsHeader ++ (host ++ [46] ++ (nonEmpty domainname).getD NETC_DEFAULT_DOMAIN ++ [9] ++ host) ++
    [10] ++ hostsTrailer windowsHosts

/-- `network_generate_hosts`. -/
def networkGenerateHosts (hostname domainname windowsHosts : Option Bytes) (generateHosts : Bool) :
    InitProgram Unit :=
  if ¬ generateHosts then pure ()
  else do
    let _ ← Program.perform (Op.writeFile NETC_HOSTS_FILE
      (hostsFile (networkCleanHostname hostname) domainname windowsHosts))

/-! ## The resolver -/

/-- The contents in a `NetworkInformation` message; the header before them is only logged. -/
def fileContents (msg : Bytes) : Option Bytes :=
  if leAt 16 4 msg < messageSize msg - 20 then some (cString msg (20 + leAt 16 4 msg)) else none

/-- `gns_handle_network_information`. -/
def gnsHandleNetworkInformation (generateResolvconf : Bool) (resolvconfPath msg : Bytes) :
    InitProgram Unit :=
  if messageSize msg ≤ 20 ∨ ¬ generateResolvconf then pure ()
  else do
    let tmp := snprintf 512 (resolvconfPath ++ ascii ".tmp")
    let contents := ((fileContents msg).map withNewline).getD []
    match ← Program.perform (Op.writeFile tmp contents) with
    | .notOpened | .notClosed => pure ()
    | .written =>
      let renamed ← Program.perform (Op.rename tmp resolvconfPath)
      if ¬ renamed then Program.perform (Op.unlink tmp)

/-! ## The time zone -/

def TZ_LOCALTIME_FILE : Bytes := ascii "/etc/localtime"
def TZ_SETTING_FILE : Bytes := ascii "/etc/timezone"
def TZ_ZONEINFO_BASE : Bytes := ascii "/usr/share/zoneinfo/"

/-- `timezone_apply`; the path of the zone has to fit 256 bytes with its NUL. -/
def timezoneApply (timezone : Option Bytes) (autoUpdate : Bool) : InitProgram Unit :=
  match nonEmpty timezone with
  | none => pure ()
  | some zone =>
    let target := TZ_ZONEINFO_BASE ++ zone
    if ¬ autoUpdate ∨ 256 ≤ target.length then pure ()
    else do
      if ← Program.perform (Op.access target) then
        Program.perform (Op.unlink TZ_LOCALTIME_FILE)
        if ← Program.perform (Op.symlink target TZ_LOCALTIME_FILE) then
          match ← Program.perform (Op.writeFile TZ_SETTING_FILE (zone ++ [10])) with
          | .notOpened => pure ()
          | .notClosed | .written => Program.perform (Op.setenv (ascii "TZ") zone)

/-- The zone in a `TimezoneInformation` message. -/
def messageTimezone (msg : Bytes) : Option Bytes :=
  if 16 < messageSize msg ∧ leAt 12 4 msg < messageSize msg - 16 then
    some (cString msg (16 + leAt 12 4 msg))
  else none

/-- `timezone_handle_message`. -/
def timezoneHandleMessage (msg : Bytes) (autoUpdate : Bool) : InitProgram Unit :=
  match messageTimezone msg with
  | none => pure ()
  | some zone => timezoneApply (some zone) autoUpdate

/-! ## What the programs use -/

theorem uses_networkApplyHostname (hostname confHostname : Option Bytes) :
    Uses [.names, .system, .files] (networkApplyHostname hostname confHostname) := by
  have hwrite : ∀ clean, Uses [.names, .system, .files] (do
      Program.perform (Op.setenv (ascii "NAME") clean)
      let _ ← Program.perform (Op.writeFile NETC_HOSTNAME_FILE (clean ++ [10])) :
        InitProgram Unit) := by
    intro clean
    refine (uses_perform (List.mem_cons_of_mem _ List.mem_cons_self)).bind fun _ => ?_
    exact (uses_perform (by simp [Op.subsystem])).bind fun _ => Program.only_pure ()
  refine (uses_perform List.mem_cons_self).bind fun accepted => ?_
  refine Program.Only.ite ?_ (hwrite _)
  exact (uses_perform List.mem_cons_self).bind fun _ => hwrite _

theorem uses_networkApplyDomainname (domainname : Option Bytes) :
    Uses [.names] (networkApplyDomainname domainname) := by
  unfold networkApplyDomainname
  split
  · exact Program.only_pure ()
  · exact uses_perform List.mem_cons_self

theorem uses_networkGenerateHosts (hostname domainname windowsHosts : Option Bytes)
    (generateHosts : Bool) :
    Uses [.files] (networkGenerateHosts hostname domainname windowsHosts generateHosts) := by
  refine (Program.only_pure ()).ite ?_
  exact (uses_perform List.mem_cons_self).bind fun _ => Program.only_pure ()

theorem uses_gnsHandleNetworkInformation (generateResolvconf : Bool) (resolvconfPath msg : Bytes) :
    Uses [.files] (gnsHandleNetworkInformation generateResolvconf resolvconfPath msg) := by
  refine (Program.only_pure ()).ite ?_
  refine (uses_perform List.mem_cons_self).bind fun out => ?_
  cases out with
  | notOpened => exact Program.only_pure ()
  | notClosed => exact Program.only_pure ()
  | written =>
    refine (uses_perform List.mem_cons_self).bind fun renamed => ?_
    exact Program.Only.ite (uses_perform List.mem_cons_self) (Program.only_pure ())

theorem uses_timezoneApply (timezone : Option Bytes) (autoUpdate : Bool) :
    Uses [.system, .files] (timezoneApply timezone autoUpdate) := by
  unfold timezoneApply
  split
  · exact Program.only_pure ()
  · refine (Program.only_pure ()).ite ?_
    refine (uses_perform List.mem_cons_self).bind fun found => ?_
    refine Program.Only.ite ?_ (Program.only_pure ())
    refine (uses_perform (List.mem_cons_of_mem _ List.mem_cons_self)).bind fun _ => ?_
    refine (uses_perform (List.mem_cons_of_mem _ List.mem_cons_self)).bind fun linked => ?_
    refine Program.Only.ite ?_ (Program.only_pure ())
    refine (uses_perform (List.mem_cons_of_mem _ List.mem_cons_self)).bind fun out => ?_
    cases out with
    | notOpened => exact Program.only_pure ()
    | notClosed => exact uses_perform List.mem_cons_self
    | written => exact uses_perform List.mem_cons_self

theorem uses_timezoneHandleMessage (msg : Bytes) (autoUpdate : Bool) :
    Uses [.system, .files] (timezoneHandleMessage msg autoUpdate) := by
  unfold timezoneHandleMessage
  split
  · exact Program.only_pure ()
  · exact uses_timezoneApply _ autoUpdate

end WslFreeBSD.Hvinit
