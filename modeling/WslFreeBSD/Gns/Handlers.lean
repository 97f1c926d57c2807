import Mathlib.Data.List.DropRight
import WslFreeBSD.Gns.Json
import WslFreeBSD.Lib.Program
import WslFreeBSD.Lib.WriteLoop
import WslFreeBSD.Protocol.Messages

/-!
# The message handlers of the GNS engine

The handlers of `gns_engine.h`, as programs that run shell commands, write `/etc/resolv.conf`,
probe sockets and send on the GNS channel; the branches for FreeBSD. Strings that the source keeps
in fixed buffers are cut to the size of the buffer where the source cuts them. Output on the
console is left out, and allocations succeed.

Each handler has one program under the name of the source. Where handlers differ only in the
command and the two notes, they are instances of `commandHandler`.
-/

namespace WslFreeBSD.Gns

open Lib Protocol

/-! ## Operations -/

/-- What a handler asks of its environment. -/
inductive Op where
  /-- `system` -/
  | system (cmd : Bytes)
  /-- `popen` and the first line of the output -/
  | popen (cmd : Bytes)
  /-- `fopen` for writing, the contents, `fclose` -/
  | writeFile (path contents : Bytes)
  /-- `socket` for the protocol and `connect` -/
  | connect (udp : Bool) (address : Bytes) (port : Int)
  /-- `socket(AF_INET6, SOCK_DGRAM, 0)` and the probing `bind` -/
  | socketIpv6
  /-- `gns_send_all` on the GNS channel -/
  | send (message : Bytes)
  deriving DecidableEq, Repr

/-- The answers: an exit status; a line, if there is one; whether the file could be opened; the
result of `connect`, if there is a socket; whether there is a socket; the results of the `send`
calls. -/
abbrev Op.Answer : Op → Type
  | .system _ => Int
  | .popen _ => Option Bytes
  | .writeFile _ _ => Bool
  | .connect _ _ _ => Option Bool
  | .socketIpv6 => Bool
  | .send _ => List WriteResult

abbrev Handler := Program Op Op.Answer

abbrev HandlerTrace := Program.Trace Op Op.Answer

/-- The globals of the engine. -/
structure Globals where
  defaultInterface : Bytes := ascii "lo0"
  generateResolvconf : Bool := true
  resolvconfPath : Bytes := ascii "/etc/resolv.conf"
  deriving DecidableEq, Repr

/-- `gns_set_default_interface`. -/
def gnsSetDefaultInterface (g : Globals) (name : Bytes) : Globals :=
  if name = [] then g else { g with defaultInterface := name.take 31 }

/-- `gns_run_cmd`. -/
def gnsRunCmd (cmd : Bytes) : Handler Int := do
  let rc ← Program.perform (.system cmd)
  pure (if rc = -1 then -1 else rc / 256 % 256)

/-- Runs commands in turn; their statuses are ignored. -/
def runAll : List Bytes → Handler Unit
  | [] => pure ()
  | cmd :: cmds => do
    let _ ← gnsRunCmd cmd
    runAll cmds

/-! ## Replies -/

/-- An `LX_GNS_RESULT` with the given type. -/
def gnsResult (type seq : Nat) (result : Int) (note : Option Bytes) : Bytes :=
  let buffer := match note with
    | none => []
    | some note => note ++ [0]
  header type (16 + buffer.length) seq ++ (leBytes 4 (result % 2 ^ 32).toNat ++ buffer)

def send (message : Bytes) : Handler Unit := do
  let _ ← Program.perform (Op.send message)
  pure ()

/-- `gns_send_result`. -/
def gnsSendResult (seq : Nat) (result : Int) (note : Option Bytes) : Handler Unit :=
  send (gnsResult LxGnsMessageResult seq result note)

/-- `gns_extract_content`: the payload as a C string. -/
def gnsExtractContent (msg : Bytes) : Option Bytes :=
  if msg.length ≤ headerSize then none else some (cString msg headerSize)

/-- `strcmp` with a literal. -/
def isText (s : Bytes) (lit : String) : Bool := s = ascii lit

/-! ## InterfaceConfiguration -/

/-- The settings that `gns_handle_interface_configuration` collects. -/
structure InterfaceSettings where
  interface : Bytes := []
  address : Bytes := []
  gateway : Bytes := []
  mtu : Bytes := []
  bringUp : Bool := false
  deriving DecidableEq, Repr

/-- The first quoted string of a text, at most `size - 1` bytes of it. -/
def firstQuoted (text : Bytes) (size : Nat) : Option Bytes :=
  let afterOpen := (text.dropWhile (· ≠ 34)).tail
  if 34 ∈ text ∧ 34 ∈ afterOpen then some ((afterOpen.takeWhile (· ≠ 34)).take (size - 1)) else none

/-- A member, or the first string of another one. -/
def memberOrFirst (content : Bytes) (key keyArray : String) (size : Nat) : Bytes :=
  let single := stringField content key size
  if single ≠ [] then single
  else
    match gnsJsonGetSubobject content keyArray 256 with
    | none => []
    | some text => (firstQuoted text size).getD []

/-- The `HNSEndpoint` format. -/
def parseEndpoint (content : Bytes) : InterfaceSettings :=
  let portName := stringField content "PortFriendlyName" 64
  let name := if portName = [] then stringField content "Name" 64 else portName
  let interface := if name = [] then stringField content "targetDeviceName" 64 else name
  let address := memberOrFirst content "IPAddress" "IPAddresses" 128
  let prefixLen := toInt32 (gnsJsonGetInt content "PrefixLength" 0)
  let address :=
    if 0 < prefixLen ∧ address ≠ [] ∧ address.length + 8 < 128 then
      address ++ snprintf (128 - address.length) (ascii "/" ++ decimal prefixLen)
    else address
  { interface, address, gateway := memberOrFirst content "GatewayAddress" "Gateways" 64,
    bringUp := true }

/-- One line of the `key=value` format. -/
def parseConfigLine (s : InterfaceSettings) (tok : Bytes) : InterfaceSettings :=
  let tok := tok.dropWhile isBlank
  if tok = [] ∨ tok.head? = some 35 then s
  else if (ascii "interface=").isPrefixOf tok then { s with interface := (tok.drop 10).take 63 }
  else if (ascii "address=").isPrefixOf tok then { s with address := (tok.drop 8).take 127 }
  else if (ascii "gateway=").isPrefixOf tok then { s with gateway := (tok.drop 8).take 63 }
  else if (ascii "mtu=").isPrefixOf tok then { s with mtu := (tok.drop 4).take 15 }
  else if isText tok "up" then { s with bringUp := true }
  else s

def parseConfigLines (content : Bytes) : InterfaceSettings :=
  (tokens (fun c => c = 10 || c = 13) content).foldl parseConfigLine {}

/-- `00-15-5D-…` to `00:15:5d:…`. -/
def ifconfigMac (mac : Bytes) : Bytes :=
  mac.map fun c => if c = 45 then 58 else if 65 ≤ c ∧ c ≤ 90 then c + 32 else c

/-- Commands of the form `ifconfig … 2>/dev/null` and the like, in a buffer of `size` bytes. -/
def quiet (size : Nat) (words : List Bytes) : Bytes :=
  snprintf size (words.flatten ++ ascii " 2>/dev/null")

/-- The command that sets the hardware address of the `HNSEndpoint` format. -/
def endpointMacCommands (content interface : Bytes) : List Bytes :=
  let mac := stringField content "MacAddress" 32
  if interface ≠ [] ∧ mac ≠ [] then
    [quiet 192 [ascii "ifconfig ", interface, ascii " ether ", ifconfigMac mac]]
  else []

/-- Sets the address; the result of the whole handler. -/
def applyAddress (interface address : Bytes) : Handler Int :=
  if interface ≠ [] ∧ address ≠ [] then do
    let rc ← gnsRunCmd (quiet 256 [ascii "ifconfig ", interface, ascii " ", address])
    pure (if rc ≠ 0 then -1 else 0)
  else pure 0

/-- The commands for the MTU and the state of the interface. -/
def linkCommands (s : InterfaceSettings) : List Bytes :=
  (if s.interface ≠ [] ∧ s.mtu ≠ [] then
    [quiet 256 [ascii "ifconfig ", s.interface, ascii " mtu ", s.mtu]] else []) ++
  (if s.interface ≠ [] ∧ s.bringUp then
    [quiet 256 [ascii "ifconfig ", s.interface, ascii " up"]] else [])

/-- Adds the default route; if that fails, removes the old one and tries again. -/
def addDefaultRoute (gateway : Bytes) : Handler Unit :=
  if gateway ≠ [] then do
    let add := quiet 256 [ascii "route add default ", gateway]
    let rc ← gnsRunCmd add
    runAll (if rc ≠ 0 then [quiet 256 [ascii "route delete default ", gateway], add] else [])
  else pure ()

/-- Applies the settings. Only a failure to set the address counts. -/
def applyInterfaceSettings (s : InterfaceSettings) : Handler Int := do
  let result ← applyAddress s.interface s.address
  runAll (linkCommands s)
  addDefaultRoute s.gateway
  pure result

def isConfigSpace (c : UInt8) : Bool := c = 32 || c = 9 || c = 10 || c = 13

/-- `gns_handle_interface_configuration`. -/
def gnsHandleInterfaceConfiguration (msg : Bytes) (seq : Nat) : Handler Unit :=
  match gnsExtractContent msg with
  | none => gnsSendResult seq (-1) (ascii "no content")
  | some content => do
    let isJson := (content.dropWhile isConfigSpace).head? = some 123
    let settings := if isJson then parseEndpoint content else parseConfigLines content
    runAll (if isJson then endpointMacCommands content settings.interface else [])
    let result ← applyInterfaceSettings settings
    gnsSendResult seq result (if result = 0 then ascii "ok" else ascii "partial")

/-! ## Notification -/

/-- A destination that stands for the default route. -/
def isDefaultPrefix (dest : Bytes) : Bool := dest = [] || (ascii "0.0.0.0").isPrefixOf dest

/-- `route add` or `route delete` for a destination. -/
def routeCommand (verb : String) (dest nextHop : Bytes) : Bytes :=
  if isDefaultPrefix dest then
    quiet 256 [ascii "route ", ascii verb, ascii " default ", nextHop]
  else quiet 256 [ascii "route ", ascii verb, ascii " ", dest, ascii " ", nextHop]

/-- The commands of `gns_apply_route_change`. -/
def routeCommands (settings requestType : Bytes) : List Bytes :=
  let nextHop := stringField settings "NextHop" 64
  let dest := stringField settings "DestinationPrefix" 80
  if isText requestType "Reset" then [ascii "route delete default 2>/dev/null"]
  else if nextHop = [] then []
  else if isText requestType "Remove" then [routeCommand "delete" dest nextHop]
  else if isText requestType "Update" then
    [quiet 256 [ascii "route delete default ", nextHop], routeCommand "add" dest nextHop]
  else [routeCommand "add" dest nextHop]

/-- `gns_apply_route_change`. -/
def gnsApplyRouteChange (settings requestType : Bytes) : Handler Unit :=
  runAll (routeCommands settings requestType)

/-- `ifconfig … alias` with a length. -/
def aliasCommand (iface address : Bytes) (len : Int) : Bytes :=
  quiet 256 [ascii "ifconfig ", iface, ascii " ", address, ascii "/", decimal len, ascii " alias"]

/-- The commands of `gns_apply_ip_change`. -/
def ipCommands (iface settings requestType : Bytes) : List Bytes :=
  let address := stringField settings "Address" 64
  let prefixLen := gnsJsonGetInt settings "OnLinkPrefixLength" 0
  if address = [] ∨ iface = [] then []
  else if isText requestType "Remove" then
    [quiet 256 [ascii "ifconfig ", iface, ascii " delete ", address]]
  else
    let add :=
      if 0 < prefixLen ∧ prefixLen ≤ 32 then aliasCommand iface address prefixLen
      else quiet 256
        [ascii "ifconfig ", iface, ascii " ", address, ascii " netmask 255.255.255.255 alias"]
    if isText requestType "Update" then
      [add, aliasCommand iface address (if 0 < prefixLen then prefixLen else 32)]
    else [add]

/-- `gns_apply_ip_change`. -/
def gnsApplyIpChange (iface settings requestType : Bytes) : Handler Unit :=
  runAll (ipCommands iface settings requestType)

/-- The search list as it is collected in a buffer of 256 bytes. -/
def searchLine (search : Bytes) : Bytes :=
  (tokens (· = 44) search).foldl (fun out s =>
    let out := if out = [] then out else (out ++ [32]).take 255
    (out ++ s.dropWhile (· = 32)).take 255) []

/-- The contents that `gns_apply_dns_change` writes. -/
def resolvconfContents (options serverList domain search : Bytes) : Bytes :=
  options ++
    ((tokens (· = 44) serverList).map fun s =>
      ascii "nameserver " ++ s.dropWhile (· = 32) ++ [10]).flatten ++
    (if domain = [] then [] else ascii "domain " ++ domain ++ [10]) ++
    (if searchLine search = [] then [] else ascii "search " ++ searchLine search ++ [10])

/-- `gns_apply_dns_change`. -/
def gnsApplyDnsChange (g : Globals) (settings requestType : Bytes) : Handler Unit :=
  if isText requestType "Remove" then pure ()
  else if g.generateResolvconf then do
    let contents := resolvconfContents (stringField settings "Options" 256)
      (stringField settings "ServerList" 512) (stringField settings "Domain" 128)
      (stringField settings "Search" 256)
    let _ ← Program.perform (Op.writeFile g.resolvconfPath contents)
    pure ()
  else pure ()

def upOrDown (up : Bool) : Bytes := if up then ascii "up" else ascii "down"

/-- The commands of `gns_apply_link_change`. -/
def linkChangeCommands (iface settings : Bytes) : List Bytes :=
  let connected := gnsJsonGetBool settings "Connected" true
  let mtu := gnsJsonGetInt settings "NlMtu" 0
  if iface = [] then []
  else
    quiet 128 [ascii "ifconfig ", iface, ascii " ", upOrDown connected] ::
      if connected ∧ 0 < mtu then
        [quiet 128 [ascii "ifconfig ", iface, ascii " mtu ", decimal mtu]]
      else []

/-- `gns_apply_link_change`. -/
def gnsApplyLinkChange (iface settings : Bytes) : Handler Unit :=
  runAll (linkChangeCommands iface settings)

/-- The command of `gns_apply_mac_change`. -/
def macCommands (iface settings : Bytes) : List Bytes :=
  let mac := stringField settings "PhysicalAddress" 64
  if mac = [] ∨ iface = [] then []
  else
    let bsdMac := mac.map fun c => if c = 45 then 58 else c
    [quiet 128 [ascii "ifconfig ", iface, ascii " link ", bsdMac]]

/-- `gns_apply_mac_change`. -/
def gnsApplyMacChange (iface settings : Bytes) : Handler Unit := runAll (macCommands iface settings)

/-- Applies a change to the `Settings` object, copied into a buffer of `size` bytes. -/
def withSettings (body : Bytes) (size : Nat) (apply : Bytes → Handler Unit) : Handler Int :=
  match gnsJsonGetSubobject body "Settings" size with
  | some settings => do
    apply settings
    pure 0
  | none => pure (-1)

def notifiedInterface (g : Globals) (body : Bytes) : Bytes :=
  let targetDevice := stringField body "targetDeviceName" 32
  if targetDevice = [] then g.defaultInterface else targetDevice

/-- The change that a notification asks for; a resource type that is not known is acknowledged. -/
def applyNotification (g : Globals) (body : Bytes) : Handler Int :=
  let resourceType := stringField body "ResourceType" 32
  let requestType := stringField body "RequestType" 16
  let iface := notifiedInterface g body
  if isText resourceType "Route" then
    withSettings body 1024 fun settings => gnsApplyRouteChange settings requestType
  else if isText resourceType "IPAddress" then
    withSettings body 1024 fun settings => gnsApplyIpChange iface settings requestType
  else if isText resourceType "DNS" then
    withSettings body 1024 fun settings => gnsApplyDnsChange g settings requestType
  else if isText resourceType "Interface" then
    withSettings body 512 fun settings => gnsApplyLinkChange iface settings
  else if isText resourceType "MacAddress" then
    withSettings body 256 fun settings => gnsApplyMacChange iface settings
  else pure 0

/-- `gns_handle_notification`. -/
def gnsHandleNotification (g : Globals) (msg : Bytes) (seq : Nat) : Handler Unit :=
  match gnsExtractContent msg with
  | none => gnsSendResult seq (-1) (ascii "no payload")
  | some body => do
    let result ← applyNotification g body
    gnsSendResult seq result
      (if result = 0 then ascii "notification applied" else ascii "partial")

/-! ## IPv6, connectivity and the network card -/

/-- The commands for IPv6: the loopback address, and no address detection, router discovery or
link-local addresses. -/
def ipv6Commands : List Bytes :=
  [ascii "ifconfig lo0 inet6 ::1/128 add 2>/dev/null",
    ascii "sysctl net.inet6.ip6.dad_count=0 2>/dev/null",
    ascii "sysctl net.inet6.ip6.accept_rtadv=0 2>/dev/null",
    ascii "sysctl net.inet6.ip6.auto_linklocal=0 2>/dev/null"]

/-- `gns_handle_setup_ipv6`. -/
def gnsHandleSetupIpv6 (seq : Nat) : Handler Unit := do
  let available ← Program.perform Op.socketIpv6
  runAll (if available = true then ipv6Commands else [])
  gnsSendResult seq 0 (ascii "ipv6 configured")

/-- The result and the note for the outcome of a connection attempt: whether there is a socket, and
whether it could be connected. -/
def connectVerdict (udp : Bool) : Option Bool → Int × Bytes
  | none => (0, ascii "socket creation failed")
  | some connected =>
    if connected ∨ udp then (0, ascii "connect succeeded")
    else (-1, ascii "connect failed (non-fatal)")

/-- The connectivity test: the result and the note. -/
def connectTest (content : Bytes) : Handler (Int × Bytes) :=
  let port := gnsJsonGetInt content "Port" 0
  let address := stringField content "Address" 64
  let udp := isText (stringField content "Protocol" 16) "udp"
  if address ≠ [] ∧ 0 < port ∧ port ≤ 65535 then do
    let outcome ← Program.perform (Op.connect udp address port)
    pure (connectVerdict udp outcome)
  else pure (0, ascii "connect ok")

/-- The case `LxGnsMessageConnectTestRequest` of the loop. -/
def handleConnectTest (msg : Bytes) (seq : Nat) : Handler Unit :=
  match gnsExtractContent msg with
  | none => gnsSendResult seq 0 (ascii "connect ok (no payload)")
  | some content => do
    let verdict ← connectTest content
    gnsSendResult seq verdict.1 verdict.2

/-- The case `LxGnsMessageVmNicCreatedNotification` of the loop: the interface named in the
message becomes the default interface. -/
def handleVmNicCreated (g : Globals) (msg : Bytes) (seq : Nat) : Handler Globals :=
  match gnsExtractContent msg with
  | none => do
    gnsSendResult seq 0 (ascii "nic created (no content)")
    pure g
  | some content => do
    let name := stringField content "interfaceName" 32
    let iface := if name = [] then stringField content "targetDeviceName" 32 else name
    runAll (if iface ≠ [] then [ascii "sysctl net.inet.ip.forwarding=1 2>/dev/null"] else [])
    gnsSendResult seq 0 (ascii "nic created")
    pure (if iface ≠ [] then gnsSetDefaultInterface g iface else g)

/-! ## Handlers that run one command -/

/-- Runs a command, if there is one; the note says whether it failed. -/
def runNoted (command : Option Bytes) (applied failed : String) : Handler Bytes :=
  match command with
  | none => pure (ascii applied)
  | some cmd => do
    let rc ← gnsRunCmd cmd
    pure (if rc ≠ 0 then ascii failed else ascii applied)

/-- Runs the command for a message and acknowledges; a command that fails only changes the
note. -/
def commandHandler (command : Bytes → Option Bytes) (applied failed : String) (msg : Bytes)
    (seq : Nat) : Handler Unit :=
  match gnsExtractContent msg with
  | none => gnsSendResult seq (-1) (ascii "no content")
  | some content => do
    let note ← runNoted (command content) applied failed
    gnsSendResult seq 0 note

def portmapRule (proto : Bytes) (port : Int) : Bytes :=
  ascii "echo 'rdr pass inet proto " ++ proto ++ ascii " from any to any port " ++ decimal port ++
    ascii " -> 127.0.0.1 port " ++ decimal port ++
    ascii "' | pfctl -a wsl_portmap -f - 2>/dev/null"

def portMappingCommand (content : Bytes) : Option Bytes :=
  let port := gnsJsonGetInt content "Port" 0
  let remove := gnsJsonGetBool content "Remove" false
  let protocol := stringField content "Protocol" 16
  if 0 < port ∧ port ≤ 65535 then
    let proto := if protocol ≠ [] ∧ ¬ isText protocol "any" then protocol else ascii "tcp"
    if remove then some (snprintf 256 (portmapRule proto port))
    else some (snprintf 256 (ascii "pfctl -a wsl_portmap -Fr 2>/dev/null; " ++ portmapRule proto port))
  else none

/-- `gns_handle_port_mapping_request`. -/
def gnsHandlePortMappingRequest : Bytes → Nat → Handler Unit :=
  commandHandler portMappingCommand "port mapping applied" "port mapping failed (non-fatal)"

def portListenerCommand (content : Bytes) : Option Bytes :=
  let port := gnsJsonGetInt content "Port" 0
  let family := gnsJsonGetInt content "Family" 2
  if 0 < port ∧ port ≤ 65535 then
    let proto := if family = 2 then ascii "tcp" else ascii "udp"
    some (snprintf 256 (ascii "echo 'pass in proto " ++ proto ++ ascii " from any to any port " ++
      decimal port ++ ascii "' | pfctl -a wsl_listener -f - 2>/dev/null"))
  else none

/-- `gns_handle_set_port_listener`. -/
def gnsHandleSetPortListener : Bytes → Nat → Handler Unit :=
  commandHandler portListenerCommand "listener configured" "listener config failed (non-fatal)"

/-- `gns_handle_listener_relay` only acknowledges. -/
def gnsHandleListenerRelay (msg : Bytes) (seq : Nat) : Handler Unit :=
  match gnsExtractContent msg with
  | none => gnsSendResult seq (-1) (ascii "no content")
  | some _ => gnsSendResult seq 0 (ascii "relay ack")

def createDeviceCommand (content : Bytes) : Option Bytes :=
  let name := stringField content "Name" 64
  if name ≠ [] then some (quiet 192 [ascii "ifconfig ", name, ascii " create"]) else none

/-- `gns_handle_create_device`. -/
def gnsHandleCreateDevice : Bytes → Nat → Handler Unit :=
  commandHandler createDeviceCommand "device created" "device create failed (non-fatal)"

def modifyDeviceCommand (content : Bytes) : Option Bytes :=
  let name := stringField content "Name" 64
  let setting := stringField content "Setting" 32
  let value := stringField content "Value" 64
  if name ≠ [] ∧ setting ≠ [] ∧ value ≠ [] then
    some (quiet 192 [ascii "ifconfig ", name, ascii " ", setting, ascii " ", value])
  else none

/-- `gns_handle_modify_device_setting`. -/
def gnsHandleModifyDeviceSetting : Bytes → Nat → Handler Unit :=
  commandHandler modifyDeviceCommand "device modified" "device modify failed (non-fatal)"

def loopbackRoutesCommand (content : Bytes) : Option Bytes :=
  let action := stringField content "Action" 16
  let dest := stringField content "Destination" 80
  if action ≠ [] ∧ dest ≠ [] then
    let isDel := isText action "remove" || isText action "del" || isText action "delete"
    some (quiet 256 [ascii "route ", if isDel then ascii "delete" else ascii "add", ascii " ", dest,
      ascii " -interface lo0"])
  else none

/-- `gns_handle_loopback_routes`. -/
def gnsHandleLoopbackRoutes : Bytes → Nat → Handler Unit :=
  commandHandler loopbackRoutesCommand "loopback route applied" "loopback route failed (non-fatal)"

def globalNetfilterCommand (content : Bytes) : Option Bytes :=
  let action := stringField content "Action" 16
  let rules := stringField content "Rules" 512
  if action ≠ [] then
    if isText action "flush" then some (ascii "pfctl -a wsl_global -Fr 2>/dev/null")
    else if rules ≠ [] then
      -- the removal of rules runs the same command as their addition
      some (quiet 512 [ascii "echo '", rules, ascii "' | pfctl -a wsl_global -f -"])
    else some (ascii "true")
  else none

/-- `gns_handle_global_netfilter`. -/
def gnsHandleGlobalNetfilter : Bytes → Nat → Handler Unit :=
  commandHandler globalNetfilterCommand "global netfilter applied"
    "global netfilter failed (non-fatal)"

def interfaceNetfilterCommand (content : Bytes) : Option Bytes :=
  let name := stringField content "Name" 64
  let action := stringField content "Action" 16
  let rules := stringField content "Rules" 512
  if name ≠ [] ∧ action ≠ [] then
    if isText action "flush" then some (quiet 512 [ascii "pfctl -a wsl_iface_", name, ascii " -Fr"])
    else if isText action "remove" ∧ rules ≠ [] then
      some (quiet 512 [ascii "echo 'block in on ", name, ascii "' | pfctl -a wsl_iface_", name,
        ascii " -f -"])
    else if rules ≠ [] then
      some (quiet 512 [ascii "echo '", rules, ascii " on ", name, ascii "' | pfctl -a wsl_iface_",
        name, ascii " -f -"])
    else some (ascii "true")
  else none

/-- `gns_handle_interface_netfilter`. -/
def gnsHandleInterfaceNetfilter : Bytes → Nat → Handler Unit :=
  commandHandler interfaceNetfilterCommand "interface netfilter applied"
    "interface netfilter failed (non-fatal)"

/-! ## Handlers with replies of their own -/

/-- The note for a setting and the line that `fgets` has read for it into 64 bytes; the value is
the line as a C string without the line ends at its end. -/
def settingNote (setting : Bytes) (line : Option Bytes) : Bytes :=
  let value := (((line.getD []).take 63).takeWhile (· ≠ 0)).rdropWhile fun c => c = 10 || c = 13
  if value ≠ [] then snprintf 128 (setting ++ ascii "=" ++ value)
  else snprintf 128 (setting ++ ascii " not found")

def querySetting (name setting : Bytes) : Handler Bytes :=
  if name ≠ [] ∧ setting ≠ [] then do
    let line ← Program.perform (Op.popen (snprintf 256 (ascii "ifconfig " ++ name ++
      ascii " 2>/dev/null | grep -i " ++ setting ++ ascii " | head -1")))
    pure (settingNote setting line)
  else pure (ascii "device setting queried")

/-- `gns_handle_device_setting`. -/
def gnsHandleDeviceSetting (msg : Bytes) (seq : Nat) : Handler Unit :=
  match gnsExtractContent msg with
  | none => gnsSendResult seq (-1) (ascii "no content")
  | some content => do
    let note ← querySetting (stringField content "Name" 64) (stringField content "Setting" 32)
    gnsSendResult seq 0 note

/-- The command of `gns_handle_if_state_change`. -/
def ifStateCommands (content : Bytes) : List Bytes :=
  let name := stringField content "Name" 64
  let up := gnsJsonGetBool content "Up" true
  let mtu := gnsJsonGetInt content "MTU" 0
  if name = [] then []
  else if 0 < mtu then
    [quiet 128 [ascii "ifconfig ", name, ascii " ", upOrDown up, ascii " mtu ", decimal mtu]]
  else [quiet 128 [ascii "ifconfig ", name, ascii " ", upOrDown up]]

/-- `gns_handle_if_state_change`. -/
def gnsHandleIfStateChange (msg : Bytes) (seq : Nat) : Handler Unit :=
  match gnsExtractContent msg with
  | none => gnsSendResult seq (-1) (ascii "no content")
  | some content => do
    runAll (ifStateCommands content)
    send (gnsResult LxGnsMessageIfStateChangeResponse seq 0 (ascii "state changed"))

end WslFreeBSD.Gns
