import WslFreeBSD.Gns.Engine
import WslFreeBSD.Lib.Shell

/-!
# Shell commands of the GNS engine

The handlers put their commands together with `snprintf` from fixed texts and strings of the message,
and pass them to `system` or `popen`. Here every command is given with its parts, in the order in
which its handler runs it; `runs_dispatch` says that these are the commands of the handlers.

A command is as intended if it fits its buffer and the strings of the message are data to the shell
that reads it. This depends on the characters of the strings and on the length of the whole
(`commands_as_intended_iff`).
-/

namespace WslFreeBSD.Gns

open Lib Protocol Shell

/-! ## Commands with their parts -/

/-- A command and the size of the buffer it is printed into. -/
structure Command where
  size : Nat
  parts : List Part
  deriving DecidableEq, Repr

namespace Command

variable (c : Command)

def text : Bytes := render c.parts

def buffer : Bytes := snprintf c.size c.text

def Fits : Prop := c.text.length ≤ c.size - 1

/-- The strings of the message are data in the command. -/
def FieldsAreData : Prop := IsData {} c.parts

/-- They have no character that is special where they stand. -/
def FieldsArePlain : Prop := Plain {} c.parts

end Command

def fixed (s : String) : Part := .text (ascii s)

def literal (s : String) : Command := ⟨(ascii s).length + 1, [fixed s]⟩

/-- The command of `quiet`. -/
def quietly (size : Nat) (parts : List Part) : Command := ⟨size, parts ++ [fixed " 2>/dev/null"]⟩

theorem render_append (parts parts' : List Part) :
    render (parts ++ parts') = render parts ++ render parts' := by
  rw [render, render, render, List.map_append, List.flatten_append]

theorem buffer_literal (s : String) : (literal s).buffer = ascii s := by
  have htext : (literal s).text = ascii s := List.append_nil _
  rw [Command.buffer, htext, snprintf]
  exact List.take_length

theorem buffer_quietly (size : Nat) (parts : List Part) :
    (quietly size parts).buffer = quiet size (parts.map Part.bytes) := by
  rw [Command.buffer, Command.text, quietly, render_append, quiet]
  congr 2

/-! ## The commands of the handlers -/

namespace Command

def endpointMac (content interface : Bytes) : List Command :=
  let mac := stringField content "MacAddress" 32
  if interface ≠ [] ∧ mac ≠ [] then
    [quietly 192 [fixed "ifconfig ", .field interface, fixed " ether ", .field (ifconfigMac mac)]]
  else []

def address (interface address : Bytes) : List Command :=
  if interface ≠ [] ∧ address ≠ [] then
    [quietly 256 [fixed "ifconfig ", .field interface, fixed " ", .field address]]
  else []

def link (s : InterfaceSettings) : List Command :=
  (if s.interface ≠ [] ∧ s.mtu ≠ [] then
    [quietly 256 [fixed "ifconfig ", .field s.interface, fixed " mtu ", .field s.mtu]] else []) ++
  (if s.interface ≠ [] ∧ s.bringUp then
    [quietly 256 [fixed "ifconfig ", .field s.interface, fixed " up"]] else [])

/-- The default route is added, and if that fails, removed and added again. -/
def defaultRoute (gateway : Bytes) : List Command :=
  let add := quietly 256 [fixed "route add default ", .field gateway]
  if gateway ≠ [] then
    [add, quietly 256 [fixed "route delete default ", .field gateway], add]
  else []

def interfaceConfiguration (content : Bytes) : List Command :=
  let isJson := (content.dropWhile isConfigSpace).head? = some 123
  let s := if isJson then parseEndpoint content else parseConfigLines content
  (if isJson then endpointMac content s.interface else []) ++
    (address s.interface s.address ++ (link s ++ defaultRoute s.gateway))

def route (verb : String) (dest nextHop : Bytes) : Command :=
  if isDefaultPrefix dest then
    quietly 256 [fixed "route ", fixed verb, fixed " default ", .field nextHop]
  else quietly 256 [fixed "route ", fixed verb, fixed " ", .field dest, fixed " ", .field nextHop]

def routeChange (settings requestType : Bytes) : List Command :=
  let nextHop := stringField settings "NextHop" 64
  let dest := stringField settings "DestinationPrefix" 80
  if isText requestType "Reset" then [literal "route delete default 2>/dev/null"]
  else if nextHop = [] then []
  else if isText requestType "Remove" then [route "delete" dest nextHop]
  else if isText requestType "Update" then
    [quietly 256 [fixed "route delete default ", .field nextHop], route "add" dest nextHop]
  else [route "add" dest nextHop]

def ipAlias (iface address : Bytes) (len : Int) : Command :=
  quietly 256 [fixed "ifconfig ", .field iface, fixed " ", .field address, fixed "/",
    .field (decimal len), fixed " alias"]

def ipChange (iface settings requestType : Bytes) : List Command :=
  let address := stringField settings "Address" 64
  let prefixLen := gnsJsonGetInt settings "OnLinkPrefixLength" 0
  if address = [] ∨ iface = [] then []
  else if isText requestType "Remove" then
    [quietly 256 [fixed "ifconfig ", .field iface, fixed " delete ", .field address]]
  else
    let add :=
      if 0 < prefixLen ∧ prefixLen ≤ 32 then ipAlias iface address prefixLen
      else quietly 256 [fixed "ifconfig ", .field iface, fixed " ", .field address,
        fixed " netmask 255.255.255.255 alias"]
    if isText requestType "Update" then
      [add, ipAlias iface address (if 0 < prefixLen then prefixLen else 32)]
    else [add]

def linkChange (iface settings : Bytes) : List Command :=
  let connected := gnsJsonGetBool settings "Connected" true
  let mtu := gnsJsonGetInt settings "NlMtu" 0
  if iface = [] then []
  else
    quietly 128 [fixed "ifconfig ", .field iface, fixed " ", .text (upOrDown connected)] ::
      if connected ∧ 0 < mtu then
        [quietly 128 [fixed "ifconfig ", .field iface, fixed " mtu ", .field (decimal mtu)]]
      else []

def macChange (iface settings : Bytes) : List Command :=
  let mac := stringField settings "PhysicalAddress" 64
  if mac = [] ∨ iface = [] then []
  else
    let bsdMac := mac.map fun c => if c = 45 then 58 else c
    [quietly 128 [fixed "ifconfig ", .field iface, fixed " link ", .field bsdMac]]

/-- The commands for the `Settings` object, if there is one. -/
def forSettings (body : Bytes) (size : Nat) (f : Bytes → List Command) : List Command :=
  match gnsJsonGetSubobject body "Settings" size with
  | some settings => f settings
  | none => []

/-- A change of the DNS settings writes a file and runs nothing. -/
def notification (g : Globals) (body : Bytes) : List Command :=
  let resourceType := stringField body "ResourceType" 32
  let requestType := stringField body "RequestType" 16
  let iface := notifiedInterface g body
  if isText resourceType "Route" then forSettings body 1024 fun s => routeChange s requestType
  else if isText resourceType "IPAddress" then
    forSettings body 1024 fun s => ipChange iface s requestType
  else if isText resourceType "DNS" then []
  else if isText resourceType "Interface" then forSettings body 512 fun s => linkChange iface s
  else if isText resourceType "MacAddress" then forSettings body 256 fun s => macChange iface s
  else []

def setupIpv6 : List Command :=
  [literal "ifconfig lo0 inet6 ::1/128 add 2>/dev/null",
    literal "sysctl net.inet6.ip6.dad_count=0 2>/dev/null",
    literal "sysctl net.inet6.ip6.accept_rtadv=0 2>/dev/null",
    literal "sysctl net.inet6.ip6.auto_linklocal=0 2>/dev/null"]

def vmNicCreated (content : Bytes) : List Command :=
  let name := stringField content "interfaceName" 32
  let iface := if name = [] then stringField content "targetDeviceName" 32 else name
  if iface ≠ [] then [literal "sysctl net.inet.ip.forwarding=1 2>/dev/null"] else []

def redirection (proto : Bytes) (port : Int) : List Part :=
  [fixed "echo 'rdr pass inet proto ", .field proto, fixed " from any to any port ",
    .field (decimal port), fixed " -> 127.0.0.1 port ", .field (decimal port),
    fixed "' | pfctl -a wsl_portmap -f - 2>/dev/null"]

def portMapping (content : Bytes) : Option Command :=
  let port := gnsJsonGetInt content "Port" 0
  let remove := gnsJsonGetBool content "Remove" false
  let protocol := stringField content "Protocol" 16
  if 0 < port ∧ port ≤ 65535 then
    let proto := if protocol ≠ [] ∧ ¬ isText protocol "any" then protocol else ascii "tcp"
    if remove then some ⟨256, redirection proto port⟩
    else some ⟨256, fixed "pfctl -a wsl_portmap -Fr 2>/dev/null; " :: redirection proto port⟩
  else none

def portListener (content : Bytes) : Option Command :=
  let port := gnsJsonGetInt content "Port" 0
  let family := gnsJsonGetInt content "Family" 2
  if 0 < port ∧ port ≤ 65535 then
    let proto := if family = 2 then ascii "tcp" else ascii "udp"
    some ⟨256, [fixed "echo 'pass in proto ", .text proto, fixed " from any to any port ",
      .field (decimal port), fixed "' | pfctl -a wsl_listener -f - 2>/dev/null"]⟩
  else none

def deviceCreation (content : Bytes) : Option Command :=
  let name := stringField content "Name" 64
  if name ≠ [] then some (quietly 192 [fixed "ifconfig ", .field name, fixed " create"]) else none

def deviceModification (content : Bytes) : Option Command :=
  let name := stringField content "Name" 64
  let setting := stringField content "Setting" 32
  let value := stringField content "Value" 64
  if name ≠ [] ∧ setting ≠ [] ∧ value ≠ [] then
    some (quietly 192
      [fixed "ifconfig ", .field name, fixed " ", .field setting, fixed " ", .field value])
  else none

def loopbackRoute (content : Bytes) : Option Command :=
  let action := stringField content "Action" 16
  let dest := stringField content "Destination" 80
  if action ≠ [] ∧ dest ≠ [] then
    let isDel := isText action "remove" || isText action "del" || isText action "delete"
    some (quietly 256 [fixed "route ", .text (if isDel then ascii "delete" else ascii "add"),
      fixed " ", .field dest, fixed " -interface lo0"])
  else none

def globalNetfilter (content : Bytes) : Option Command :=
  let action := stringField content "Action" 16
  let rules := stringField content "Rules" 512
  if action ≠ [] then
    if isText action "flush" then some (literal "pfctl -a wsl_global -Fr 2>/dev/null")
    else if rules ≠ [] then
      some (quietly 512 [fixed "echo '", .field rules, fixed "' | pfctl -a wsl_global -f -"])
    else some (literal "true")
  else none

def interfaceNetfilter (content : Bytes) : Option Command :=
  let name := stringField content "Name" 64
  let action := stringField content "Action" 16
  let rules := stringField content "Rules" 512
  if name ≠ [] ∧ action ≠ [] then
    if isText action "flush" then
      some (quietly 512 [fixed "pfctl -a wsl_iface_", .field name, fixed " -Fr"])
    else if isText action "remove" ∧ rules ≠ [] then
      some (quietly 512 [fixed "echo 'block in on ", .field name,
        fixed "' | pfctl -a wsl_iface_", .field name, fixed " -f -"])
    else if rules ≠ [] then
      some (quietly 512 [fixed "echo '", .field rules, fixed " on ", .field name,
        fixed "' | pfctl -a wsl_iface_", .field name, fixed " -f -"])
    else some (literal "true")
  else none

def settingQuery (content : Bytes) : List Command :=
  let name := stringField content "Name" 64
  let setting := stringField content "Setting" 32
  if name ≠ [] ∧ setting ≠ [] then
    [⟨256, [fixed "ifconfig ", .field name, fixed " 2>/dev/null | grep -i ", .field setting,
      fixed " | head -1"]⟩]
  else []

def ifStateChange (content : Bytes) : List Command :=
  let name := stringField content "Name" 64
  let up := gnsJsonGetBool content "Up" true
  let mtu := gnsJsonGetInt content "MTU" 0
  if name = [] then []
  else if 0 < mtu then
    [quietly 128 [fixed "ifconfig ", .field name, fixed " ", .text (upOrDown up), fixed " mtu ",
      .field (decimal mtu)]]
  else [quietly 128 [fixed "ifconfig ", .field name, fixed " ", .text (upOrDown up)]]

end Command

/-- The commands of a handler for the payload, if there is one. -/
def forContent (msg : Bytes) (f : Bytes → List Command) : List Command :=
  match gnsExtractContent msg with
  | none => []
  | some content => f content

/-- The commands that the handling of a message can run. -/
def intendedCommands (g : Globals) (msg : Bytes) : List Command :=
  let type := messageType msg
  if type = LxGnsMessageInterfaceConfiguration then forContent msg Command.interfaceConfiguration
  else if type = LxGnsMessageNotification then forContent msg (Command.notification g)
  else if type = LxGnsMessageNoOp then []
  else if type = LxGnsMessageConnectTestRequest then []
  else if type = LxGnsMessageInitialIpConfigurationNotification then []
  else if type = LxGnsMessageSetupIpv6 then Command.setupIpv6
  else if type = LxGnsMessageVmNicCreatedNotification then forContent msg Command.vmNicCreated
  else if type = LxGnsMessagePortMappingRequest then forContent msg fun c => (Command.portMapping c).toList
  else if type = LxGnsMessageSetPortListener then forContent msg fun c => (Command.portListener c).toList
  else if type = LxGnsMessageListenerRelay then []
  else if type = LxGnsMessageCreateDeviceRequest then
    forContent msg fun c => (Command.deviceCreation c).toList
  else if type = LxGnsMessageModifyGuestDeviceSettingRequest then
    forContent msg fun c => (Command.deviceModification c).toList
  else if type = LxGnsMessageLoopbackRoutesRequest then
    forContent msg fun c => (Command.loopbackRoute c).toList
  else if type = LxGnsMessageDeviceSettingRequest then forContent msg Command.settingQuery
  else if type = LxGnsMessageIfStateChangeRequest then forContent msg Command.ifStateChange
  else if type = LxGnsMessageGlobalNetFilter then forContent msg fun c => (Command.globalNetfilter c).toList
  else if type = LxGnsMessageInterfaceNetFilter then
    forContent msg fun c => (Command.interfaceNetfilter c).toList
  else []

/-! ## They are the commands of the handlers -/

section Buffers

theorem map_buffer_ite {c : Prop} [Decidable c] (cs cs' : List Command) :
    (if c then cs else cs').map Command.buffer =
      if c then cs.map Command.buffer else cs'.map Command.buffer := by
  split <;> rfl

theorem buffers_endpointMac (content interface : Bytes) :
    (Command.endpointMac content interface).map Command.buffer =
      endpointMacCommands content interface := by
  rw [Command.endpointMac, endpointMacCommands]
  rw [map_buffer_ite]
  simp only [List.map_cons, List.map_nil, buffer_quietly, Part.bytes, fixed]

theorem buffers_link (s : InterfaceSettings) :
    (Command.link s).map Command.buffer = linkCommands s := by
  rw [Command.link, linkCommands, List.map_append, map_buffer_ite, map_buffer_ite]
  simp only [List.map_cons, List.map_nil, buffer_quietly, Part.bytes, fixed]

theorem buffer_route (verb : String) (dest nextHop : Bytes) :
    (Command.route verb dest nextHop).buffer = routeCommand verb dest nextHop := by
  unfold Command.route routeCommand
  split
  · rw [buffer_quietly]
    rfl
  · rw [buffer_quietly]
    rfl

theorem buffers_routeChange (settings requestType : Bytes) :
    (Command.routeChange settings requestType).map Command.buffer =
      routeCommands settings requestType := by
  unfold Command.routeChange routeCommands
  dsimp only
  simp only [map_buffer_ite, List.map_cons, List.map_nil, buffer_literal, buffer_route,
    buffer_quietly, Part.bytes, fixed]

theorem buffer_ipAlias (iface address : Bytes) (len : Int) :
    (Command.ipAlias iface address len).buffer = aliasCommand iface address len := by
  rw [Command.ipAlias, buffer_quietly]
  rfl

theorem buffers_ipChange (iface settings requestType : Bytes) :
    (Command.ipChange iface settings requestType).map Command.buffer =
      ipCommands iface settings requestType := by
  unfold Command.ipChange ipCommands
  dsimp only
  simp only [map_buffer_ite, List.map_cons, List.map_nil, buffer_ipAlias, buffer_quietly,
    apply_ite Command.buffer, Part.bytes, fixed]

theorem buffers_linkChange (iface settings : Bytes) :
    (Command.linkChange iface settings).map Command.buffer = linkChangeCommands iface settings := by
  unfold Command.linkChange linkChangeCommands
  dsimp only
  simp only [map_buffer_ite, List.map_cons, List.map_nil, buffer_quietly, Part.bytes, fixed]

theorem buffers_macChange (iface settings : Bytes) :
    (Command.macChange iface settings).map Command.buffer = macCommands iface settings := by
  unfold Command.macChange macCommands
  dsimp only
  simp only [map_buffer_ite, List.map_cons, List.map_nil, buffer_quietly, Part.bytes, fixed]

theorem buffers_setupIpv6 : Command.setupIpv6.map Command.buffer = ipv6Commands := by
  simp only [Command.setupIpv6, List.map_cons, List.map_nil, buffer_literal]
  rfl

theorem map_buffer_option_ite {c : Prop} [Decidable c] (x y : Option Command) :
    (if c then x else y).map Command.buffer =
      if c then x.map Command.buffer else y.map Command.buffer := by
  split <;> rfl

theorem buffer_portMapping (content : Bytes) :
    (Command.portMapping content).map Command.buffer = portMappingCommand content := by
  have hrule (proto : Bytes) (port : Int) :
      render (Command.redirection proto port) = portmapRule proto port := by
    simp [Command.redirection, render, Part.bytes, fixed, portmapRule]
  have hremove (proto : Bytes) (port : Int) :
      (⟨256, Command.redirection proto port⟩ : Command).buffer =
        snprintf 256 (portmapRule proto port) := by
    rw [Command.buffer, Command.text, hrule]
  have hadd (proto : Bytes) (port : Int) :
      (⟨256, fixed "pfctl -a wsl_portmap -Fr 2>/dev/null; " :: Command.redirection proto port⟩ :
        Command).buffer =
        snprintf 256 (ascii "pfctl -a wsl_portmap -Fr 2>/dev/null; " ++ portmapRule proto port) := by
    rw [← hrule]
    rfl
  unfold Command.portMapping portMappingCommand
  dsimp only
  simp only [map_buffer_option_ite, Option.map_some, Option.map_none, hremove, hadd]

theorem buffer_portListener (content : Bytes) :
    (Command.portListener content).map Command.buffer = portListenerCommand content := by
  unfold Command.portListener portListenerCommand
  dsimp only
  rw [map_buffer_option_ite]
  simp [Command.buffer, Command.text, render, Part.bytes, fixed]

theorem buffer_deviceCreation (content : Bytes) :
    (Command.deviceCreation content).map Command.buffer = createDeviceCommand content := by
  unfold Command.deviceCreation createDeviceCommand
  dsimp only
  simp only [map_buffer_option_ite, Option.map_some, Option.map_none, buffer_quietly, List.map_cons,
    List.map_nil, Part.bytes, fixed]

theorem buffer_deviceModification (content : Bytes) :
    (Command.deviceModification content).map Command.buffer = modifyDeviceCommand content := by
  unfold Command.deviceModification modifyDeviceCommand
  dsimp only
  simp only [map_buffer_option_ite, Option.map_some, Option.map_none, buffer_quietly, List.map_cons,
    List.map_nil, Part.bytes, fixed]

theorem buffer_loopbackRoute (content : Bytes) :
    (Command.loopbackRoute content).map Command.buffer = loopbackRoutesCommand content := by
  unfold Command.loopbackRoute loopbackRoutesCommand
  dsimp only
  simp only [map_buffer_option_ite, Option.map_some, Option.map_none, buffer_quietly, List.map_cons,
    List.map_nil, Part.bytes, fixed]

theorem buffer_globalNetfilter (content : Bytes) :
    (Command.globalNetfilter content).map Command.buffer = globalNetfilterCommand content := by
  unfold Command.globalNetfilter globalNetfilterCommand
  dsimp only
  simp only [map_buffer_option_ite, Option.map_some, Option.map_none, buffer_quietly, buffer_literal,
    List.map_cons, List.map_nil, Part.bytes, fixed]

theorem buffer_interfaceNetfilter (content : Bytes) :
    (Command.interfaceNetfilter content).map Command.buffer = interfaceNetfilterCommand content := by
  unfold Command.interfaceNetfilter interfaceNetfilterCommand
  dsimp only
  simp only [map_buffer_option_ite, Option.map_some, Option.map_none, buffer_quietly, buffer_literal,
    List.map_cons, List.map_nil, Part.bytes, fixed]

theorem buffers_ifStateChange (content : Bytes) :
    (Command.ifStateChange content).map Command.buffer = ifStateCommands content := by
  unfold Command.ifStateChange ifStateCommands
  dsimp only
  simp only [map_buffer_ite, List.map_cons, List.map_nil, buffer_quietly, Part.bytes, fixed]

end Buffers

/-! ## What is run -/

def commandOf (c : Σ e, Op.Answer e) : Option Bytes :=
  match c.1 with
  | .system cmd => some cmd
  | .popen cmd => some cmd
  | _ => none

/-- Every command fails, and there is IPv6. Then a handler runs all the commands it has. -/
def failing : (e : Op) → e.Answer
  | .system _ => (256 : Int)
  | .popen _ => none
  | .writeFile _ _ => false
  | .connect _ _ _ => none
  | .socketIpv6 => true
  | .send _ => []

/-- The program runs no other commands than these, and all of them, in this order, when every
command fails. -/
structure Runs {α : Type} (p : Handler α) (cmds : List Bytes) : Prop where
  only : p.Shows commandOf fun _ o => ∀ cmd ∈ o, cmd ∈ cmds
  all : (p.evalWith failing).2.filterMap commandOf = cmds

section Runs

variable {α β : Type} {p : Handler α} {f : α → Handler β} {cmds cmds' : List Bytes}

theorem runs_pure (a : α) : Runs (pure a : Handler α) [] where
  only := by
    intro cmd hcmd
    cases hcmd
  all := rfl

theorem Runs.bind (hp : Runs p cmds) (hf : ∀ a, Runs (f a) cmds') : Runs (p >>= f) (cmds ++ cmds') where
  only := by
    refine hp.only.bind fun a o ho => (hf a).only.mono fun b o' ho' => ?_
    intro cmd hcmd
    rcases List.mem_append.mp hcmd with h | h
    · exact List.mem_append_left _ (ho cmd h)
    · exact List.mem_append_right _ (ho' cmd h)
  all := by
    rw [Program.evalWith_bind, List.filterMap_append, hp.all, (hf _).all]

theorem Runs.ite {c : Prop} [Decidable c] {q : Handler α} {cs cs' : List Command}
    (hp : Runs p (cs.map Command.buffer)) (hq : Runs q (cs'.map Command.buffer)) :
    Runs (if c then p else q) ((if c then cs else cs').map Command.buffer) := by
  by_cases h : c
  · rw [if_pos h, if_pos h]
    exact hp
  · rw [if_neg h, if_neg h]
    exact hq

theorem Runs.then_nothing (hp : Runs p cmds) (hf : ∀ a, Runs (f a) []) : Runs (p >>= f) cmds := by
  have h := hp.bind hf
  rwa [List.append_nil] at h

theorem runs_send (m : Bytes) : Runs (send m) [] where
  only := by
    intro r cmd hcmd
    cases hcmd
  all := rfl

theorem runs_gnsRunCmd (cmd : Bytes) : Runs (gnsRunCmd cmd) [cmd] where
  only _ _ hcmd := hcmd
  all := rfl

theorem runs_runAll (cmds : List Bytes) : Runs (runAll cmds) cmds := by
  induction cmds with
  | nil => exact runs_pure ()
  | cons cmd cmds ih => exact (runs_gnsRunCmd cmd).bind fun _ => ih

theorem runs_runAll_map {cs : List Command} (h : cs.map Command.buffer = cmds) :
    Runs (runAll cmds) (cs.map Command.buffer) := by
  rw [h]
  exact runs_runAll cmds

theorem Runs.keep {h : Handler Unit} (hp : Runs h cmds) (g : Globals) : Runs (keep g h) cmds :=
  hp.then_nothing fun _ => runs_pure g

theorem runs_gnsSendResult (seq : Nat) (result : Int) (note : Option Bytes) :
    Runs (gnsSendResult seq result note) [] := runs_send _

theorem runs_runNoted {x : Option Command} {command : Option Bytes} (applied failed : String)
    (h : x.map Command.buffer = command) :
    Runs (runNoted command applied failed) (x.toList.map Command.buffer) := by
  subst h
  cases x with
  | none => exact runs_pure _
  | some c => exact (runs_gnsRunCmd c.buffer).then_nothing fun _ => runs_pure _

theorem runs_commandHandler {x : Bytes → Option Command} {command : Bytes → Option Bytes}
    (applied failed : String) (h : ∀ content, (x content).map Command.buffer = command content)
    (msg : Bytes) (seq : Nat) : Runs (commandHandler command applied failed msg seq)
      ((forContent msg fun content => (x content).toList).map Command.buffer) := by
  unfold commandHandler forContent
  cases gnsExtractContent msg with
  | none => exact runs_gnsSendResult _ _ _
  | some content =>
    exact (runs_runNoted applied failed (h content)).then_nothing fun _ => runs_gnsSendResult _ _ _

theorem runs_applyAddress (interface address : Bytes) :
    Runs (applyAddress interface address)
      ((Command.address interface address).map Command.buffer) := by
  unfold applyAddress Command.address
  split
  · rw [List.map_cons, buffer_quietly]
    exact (runs_gnsRunCmd _).then_nothing fun _ => runs_pure _
  · exact runs_pure _

theorem runs_addDefaultRoute (gateway : Bytes) :
    Runs (addDefaultRoute gateway) ((Command.defaultRoute gateway).map Command.buffer) := by
  unfold addDefaultRoute Command.defaultRoute
  by_cases hgateway : gateway ≠ []
  · rw [if_pos hgateway, if_pos hgateway]
    simp only [List.map_cons, List.map_nil, buffer_quietly, Part.bytes, fixed]
    constructor
    · refine (runs_gnsRunCmd _).only.bind fun rc o ho => ?_
      refine (runs_runAll _).only.mono fun _ o' ho' cmd hcmd => ?_
      rcases List.mem_append.mp hcmd with h | h
      · exact List.mem_cons.mpr (.inl (List.mem_singleton.mp (ho cmd h)))
      · have hmem := ho' cmd h
        split at hmem
        · exact List.mem_cons_of_mem _ hmem
        · cases hmem
    · rfl
  · rw [if_neg hgateway, if_neg hgateway]
    exact runs_pure ()

theorem runs_applyInterfaceSettings (s : InterfaceSettings) :
    Runs (applyInterfaceSettings s) ((Command.address s.interface s.address ++
      (Command.link s ++ Command.defaultRoute s.gateway)).map Command.buffer) := by
  rw [List.map_append, List.map_append]
  refine (runs_applyAddress _ _).bind fun result => ?_
  refine (runs_runAll_map (buffers_link s)).bind fun _ => ?_
  exact (runs_addDefaultRoute _).then_nothing fun _ => runs_pure result

theorem runs_gnsHandleInterfaceConfiguration (msg : Bytes) (seq : Nat) :
    Runs (gnsHandleInterfaceConfiguration msg seq)
      ((forContent msg Command.interfaceConfiguration).map Command.buffer) := by
  unfold gnsHandleInterfaceConfiguration forContent
  cases gnsExtractContent msg with
  | none => exact runs_gnsSendResult _ _ _
  | some content =>
    dsimp only
    rw [Command.interfaceConfiguration, List.map_append]
    refine Runs.bind ?_ fun _ =>
      (runs_applyInterfaceSettings _).then_nothing fun _ => runs_gnsSendResult _ _ _
    split
    · exact runs_runAll_map (buffers_endpointMac _ _)
    · exact runs_pure ()

theorem runs_withSettings {apply : Bytes → Handler Unit} {x : Bytes → List Command} (body : Bytes)
    (size : Nat) (h : ∀ settings, Runs (apply settings) ((x settings).map Command.buffer)) :
    Runs (withSettings body size apply) ((Command.forSettings body size x).map Command.buffer) := by
  unfold withSettings Command.forSettings
  cases gnsJsonGetSubobject body "Settings" size with
  | none => exact runs_pure _
  | some settings => exact (h settings).then_nothing fun _ => runs_pure _

theorem runs_gnsApplyDnsChange (g : Globals) (settings requestType : Bytes) :
    Runs (gnsApplyDnsChange g settings requestType) [] := by
  unfold gnsApplyDnsChange
  split
  · exact runs_pure ()
  · split
    · exact ⟨fun _ _ hcmd => (by cases hcmd), rfl⟩
    · exact runs_pure ()

theorem runs_applyNotification (g : Globals) (body : Bytes) :
    Runs (applyNotification g body) ((Command.notification g body).map Command.buffer) := by
  have hdns (requestType : Bytes) : Runs (withSettings body 1024 fun settings =>
      gnsApplyDnsChange g settings requestType) [] := by
    unfold withSettings
    split
    · exact (runs_gnsApplyDnsChange g _ _).then_nothing fun _ => runs_pure _
    · exact runs_pure _
  refine Runs.ite (runs_withSettings _ _ fun s => runs_runAll_map (buffers_routeChange s _)) ?_
  refine Runs.ite (runs_withSettings _ _ fun s => runs_runAll_map (buffers_ipChange _ s _)) ?_
  refine Runs.ite (hdns _) ?_
  refine Runs.ite (runs_withSettings _ _ fun s => runs_runAll_map (buffers_linkChange _ s)) ?_
  refine Runs.ite (runs_withSettings _ _ fun s => runs_runAll_map (buffers_macChange _ s)) ?_
  exact runs_pure _

theorem runs_gnsHandleNotification (g : Globals) (msg : Bytes) (seq : Nat) :
    Runs (gnsHandleNotification g msg seq)
      ((forContent msg (Command.notification g)).map Command.buffer) := by
  unfold gnsHandleNotification forContent
  cases gnsExtractContent msg with
  | none => exact runs_gnsSendResult _ _ _
  | some body => exact (runs_applyNotification g body).then_nothing fun _ => runs_gnsSendResult _ _ _

theorem runs_handleConnectTest (msg : Bytes) (seq : Nat) : Runs (handleConnectTest msg seq) [] := by
  have hconnect (udp : Bool) (address : Bytes) (port : Int) :
      Runs (Program.perform (Op.connect udp address port) : Handler (Option Bool)) [] :=
    ⟨fun _ _ hcmd => (by cases hcmd), rfl⟩
  unfold handleConnectTest
  cases gnsExtractContent msg with
  | none => exact runs_gnsSendResult _ _ _
  | some content =>
    refine Runs.then_nothing ?_ fun _ => runs_gnsSendResult _ _ _
    unfold connectTest
    dsimp only
    split
    · exact (hconnect _ _ _).then_nothing fun _ => runs_pure _
    · exact runs_pure _

theorem runs_gnsHandleSetupIpv6 (seq : Nat) :
    Runs (gnsHandleSetupIpv6 seq) (Command.setupIpv6.map Command.buffer) := by
  rw [buffers_setupIpv6]
  constructor
  · intro available
    refine ((runs_runAll _).then_nothing fun _ => runs_gnsSendResult _ _ _).only.mono ?_
    intro _ o ho cmd hcmd
    have hmem := ho cmd hcmd
    split at hmem
    · exact hmem
    · cases hmem
  · rfl

theorem runs_handleVmNicCreated (g : Globals) (msg : Bytes) (seq : Nat) :
    Runs (handleVmNicCreated g msg seq)
      ((forContent msg Command.vmNicCreated).map Command.buffer) := by
  unfold handleVmNicCreated forContent
  cases gnsExtractContent msg with
  | none => exact (runs_gnsSendResult _ _ _).then_nothing fun _ => runs_pure _
  | some content =>
    dsimp only
    unfold Command.vmNicCreated
    dsimp only
    rw [map_buffer_ite, List.map_cons, List.map_nil, buffer_literal]
    refine (runs_runAll _).then_nothing fun _ => ?_
    exact (runs_gnsSendResult _ _ _).then_nothing fun _ => runs_pure _

theorem runs_gnsHandleListenerRelay (msg : Bytes) (seq : Nat) :
    Runs (gnsHandleListenerRelay msg seq) [] := by
  unfold gnsHandleListenerRelay
  split
  · exact runs_gnsSendResult _ _ _
  · exact runs_gnsSendResult _ _ _

theorem runs_gnsHandleDeviceSetting (msg : Bytes) (seq : Nat) :
    Runs (gnsHandleDeviceSetting msg seq)
      ((forContent msg Command.settingQuery).map Command.buffer) := by
  have hpopen (cmd : Bytes) : Runs (Program.perform (Op.popen cmd) : Handler (Option Bytes)) [cmd] :=
    ⟨fun _ _ hcmd => hcmd, rfl⟩
  unfold gnsHandleDeviceSetting forContent
  cases gnsExtractContent msg with
  | none => exact runs_gnsSendResult _ _ _
  | some content =>
    refine Runs.then_nothing ?_ fun _ => runs_gnsSendResult _ _ _
    unfold querySetting Command.settingQuery
    dsimp only
    split
    · have hquery := (hpopen (snprintf 256 (ascii "ifconfig " ++ stringField content "Name" 64 ++
        ascii " 2>/dev/null | grep -i " ++ stringField content "Setting" 32 ++
        ascii " | head -1"))).then_nothing fun line =>
          runs_pure (settingNote (stringField content "Setting" 32) line)
      simpa [Command.buffer, Command.text, render, Part.bytes, fixed] using hquery
    · exact runs_pure _

theorem runs_gnsHandleIfStateChange (msg : Bytes) (seq : Nat) :
    Runs (gnsHandleIfStateChange msg seq)
      ((forContent msg Command.ifStateChange).map Command.buffer) := by
  unfold gnsHandleIfStateChange forContent
  cases gnsExtractContent msg with
  | none => exact runs_gnsSendResult _ _ _
  | some content =>
    exact (runs_runAll_map (buffers_ifStateChange content)).then_nothing fun _ => runs_send _

theorem runs_dispatch (g : Globals) (msg : Bytes) :
    Runs (dispatch g msg) ((intendedCommands g msg).map Command.buffer) := by
  unfold dispatch intendedCommands
  dsimp only
  -- the cases of the `switch`, in its order
  refine Runs.ite ((runs_gnsHandleInterfaceConfiguration _ _).keep g) ?_
  refine Runs.ite ((runs_gnsHandleNotification _ _ _).keep g) ?_
  refine Runs.ite ((runs_gnsSendResult _ _ _).keep g) ?_
  refine Runs.ite ((runs_handleConnectTest _ _).keep g) ?_
  refine Runs.ite ((runs_gnsSendResult _ _ _).keep g) ?_
  refine Runs.ite ((runs_gnsHandleSetupIpv6 _).keep g) ?_
  refine Runs.ite (runs_handleVmNicCreated _ _ _) ?_
  refine Runs.ite ((runs_commandHandler _ _ buffer_portMapping _ _).keep g) ?_
  refine Runs.ite ((runs_commandHandler _ _ buffer_portListener _ _).keep g) ?_
  refine Runs.ite ((runs_gnsHandleListenerRelay _ _).keep g) ?_
  refine Runs.ite ((runs_commandHandler _ _ buffer_deviceCreation _ _).keep g) ?_
  refine Runs.ite ((runs_commandHandler _ _ buffer_deviceModification _ _).keep g) ?_
  refine Runs.ite ((runs_commandHandler _ _ buffer_loopbackRoute _ _).keep g) ?_
  refine Runs.ite ((runs_gnsHandleDeviceSetting _ _).keep g) ?_
  refine Runs.ite ((runs_gnsHandleIfStateChange _ _).keep g) ?_
  refine Runs.ite ((runs_commandHandler _ _ buffer_globalNetfilter _ _).keep g) ?_
  refine Runs.ite ((runs_commandHandler _ _ buffer_interfaceNetfilter _ _).keep g) ?_
  exact (runs_gnsSendResult _ _ _).keep g

end Runs

/-! ## Commands as intended -/

/-- The commands that are run when a message is handled, after the calls of a trace. -/
def commandsRun (g : Globals) (msg : Bytes) (answers : Answers) (t : HandlerTrace) : List Bytes :=
  (((dispatch g msg).run answers t).2.drop t.length).filterMap commandOf

/-- A command that is run is one of the intended commands, and it is the whole of it, with the strings
of the message as data. -/
structure AsIntended (g : Globals) (msg cmd : Bytes) : Prop where
  intended : ∃ c ∈ intendedCommands g msg, c.buffer = cmd
  complete : ∀ c ∈ intendedCommands g msg, c.buffer = cmd → c.text = cmd
  data : ∀ c ∈ intendedCommands g msg, c.buffer = cmd → c.FieldsAreData

theorem mem_of_mem_commandsRun {g : Globals} {msg cmd : Bytes} {answers : Answers} {t : HandlerTrace}
    (h : cmd ∈ commandsRun g msg answers t) : ∃ c ∈ intendedCommands g msg, c.buffer = cmd := by
  obtain ⟨u, hu, honly⟩ := (runs_dispatch g msg).only.run answers t
  rw [commandsRun, hu, List.drop_left] at h
  exact List.mem_map.mp (honly cmd h)

theorem commandsRun_failing (g : Globals) (msg : Bytes) :
    commandsRun g msg (fun _ e => failing e) [] = (intendedCommands g msg).map Command.buffer := by
  rw [commandsRun, Program.run_const]
  exact (runs_dispatch g msg).all

theorem buffer_eq_text_iff (c : Command) : c.buffer = c.text ↔ c.Fits := by
  rw [Command.buffer, snprintf, List.take_eq_self_iff]
  exact Iff.rfl

/-- **Whatever the commands answer, the engine runs only whole intended commands with the strings of
the message as data, exactly if every command for the message fits its buffer and its fields have no
character that is special to the shell where they stand.** -/
theorem commands_as_intended_iff (g : Globals) (msg : Bytes) :
    (∀ answers t, ∀ cmd ∈ commandsRun g msg answers t, AsIntended g msg cmd) ↔
      ∀ c ∈ intendedCommands g msg, c.Fits ∧ c.FieldsArePlain := by
  constructor
  · intro h c hc
    have hrun : c.buffer ∈ commandsRun g msg (fun _ e => failing e) [] := by
      rw [commandsRun_failing]
      exact List.mem_map_of_mem hc
    have hintended := h _ _ _ hrun
    refine ⟨?_, ?_⟩
    · exact (buffer_eq_text_iff c).mp (hintended.complete c hc rfl).symm
    · exact (isData_iff_plain _ _).mp (hintended.data c hc rfl)
  · intro h answers t cmd hcmd
    refine ⟨mem_of_mem_commandsRun hcmd, ?_, ?_⟩
    · intro c hc hbuffer
      rw [← (buffer_eq_text_iff c).mpr (h c hc).1, hbuffer]
    · intro c hc _
      exact (isData_iff_plain _ _).mpr (h c hc).2

/-- A device with the name `a;b`: the semicolon ends the command. -/
theorem device_name_ends_command :
    ¬ ∀ (g : Globals) (msg : Bytes) (answers : Answers) (t : HandlerTrace),
      ∀ cmd ∈ commandsRun g msg answers t, AsIntended g msg cmd := by
  intro h
  let msg := header LxGnsMessageCreateDeviceRequest 26 1 ++ ascii "\x7b\"Name\":\"a;b\"\x7d"
  let c := quietly 192 [fixed "ifconfig ", .field (ascii "a;b"), fixed " create"]
  have hcommands : intendedCommands {} msg = [c] := by decide
  have hmem : c ∈ intendedCommands {} msg := by
    rw [hcommands]
    exact List.mem_singleton_self c
  have hrun : c.buffer ∈ commandsRun {} msg (fun _ e => failing e) [] := by
    rw [commandsRun_failing]
    exact List.mem_map_of_mem hmem
  have hdata : Literal (scan {} (ascii "ifconfig ")) (ascii "a;b") :=
    ((h {} msg _ _ _ hrun).data c hmem rfl).1
  exact absurd hdata.2.1.1 (by decide)

end WslFreeBSD.Gns
