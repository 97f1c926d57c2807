import WslFreeBSD.Gns.Commands
import WslFreeBSD.Gns.JsonText

/-!
# Addresses in arrays

An endpoint gives its address and its gateway as single values or as arrays, of which the first element
counts. For an array the handler asks for a nested object, which an array is not, so nothing is
configured from it. `array_members_iff` compares the handler with one that is given the first element:
they agree only where that element changes nothing.
-/

namespace WslFreeBSD.Gns

open Lib

/-! ## The handler with its address and gateway given -/

def endpointInterface (content : Bytes) : Bytes :=
  let portName := stringField content "PortFriendlyName" 64
  let name := if portName = [] then stringField content "Name" 64 else portName
  if name = [] then stringField content "targetDeviceName" 64 else name

/-- The address with the length of the prefix, where there is room for it. -/
def withPrefixLength (content address : Bytes) : Bytes :=
  let prefixLen := toInt32 (gnsJsonGetInt content "PrefixLength" 0)
  if 0 < prefixLen ∧ address ≠ [] ∧ address.length + 8 < 128 then
    address ++ snprintf (128 - address.length) (ascii "/" ++ decimal prefixLen)
  else address

/-- What is configured for an endpoint with this address and this gateway. -/
def endpointSettings (content address gateway : Bytes) : InterfaceSettings where
  interface := endpointInterface content
  address := withPrefixLength content address
  gateway := gateway
  bringUp := true

/-- `gns_handle_interface_configuration` for an endpoint, with the address and the gateway given. -/
def configureEndpoint (content : Bytes) (seq : Nat) (address gateway : Bytes) : Handler Unit := do
  runAll (endpointMacCommands content (endpointInterface content))
  let result ← applyInterfaceSettings (endpointSettings content address gateway)
  gnsSendResult seq result (if result = 0 then ascii "ok" else ascii "partial")

/-- The address and the gateway of the endpoint, as the handler finds them. -/
def foundAddress (content : Bytes) : Bytes := memberOrFirst content "IPAddress" "IPAddresses" 128

def foundGateway (content : Bytes) : Bytes := memberOrFirst content "GatewayAddress" "Gateways" 64

def IsEndpoint (content : Bytes) : Prop := (content.dropWhile isConfigSpace).head? = some 123

instance (content : Bytes) : Decidable (IsEndpoint content) :=
  inferInstanceAs (Decidable ((content.dropWhile isConfigSpace).head? = some 123))

theorem handler_eq {msg content : Bytes} (hcontent : gnsExtractContent msg = some content)
    (hjson : IsEndpoint content) (seq : Nat) :
    gnsHandleInterfaceConfiguration msg seq =
      configureEndpoint content seq (foundAddress content) (foundGateway content) := by
  have hbrace : (content.dropWhile isConfigSpace).head? = some 123 := hjson
  unfold gnsHandleInterfaceConfiguration
  rw [hcontent]
  simp only [if_pos hbrace]
  rfl

/-! ## Members -/

/-- There is no member `key`, and the first element of the array `keyArray` is a string; `v` is the
text behind its opening quote. -/
structure ArrayInstead (content : Bytes) (key keyArray : String) (v : Bytes) : Prop where
  missing : gnsJsonFindValue content key = none
  array : ∃ space, (∀ c ∈ space, isConfigSpace c = true) ∧
    gnsJsonFindValue content keyArray = some (91 :: (space ++ 34 :: v))

theorem memberOrFirst_single {content v : Bytes} {key : String} (keyArray : String) {size : Nat}
    (hfind : gnsJsonFindValue content key = some (34 :: v)) (hne : copyString size v ≠ []) :
    memberOrFirst content key keyArray size = copyString size v := by
  have hsingle : stringField content key size = copyString size v := by
    unfold stringField gnsJsonGetString
    rw [hfind]
    rfl
  unfold memberOrFirst
  rw [hsingle]
  exact if_pos hne

theorem memberOrFirst_array {content v : Bytes} {key keyArray : String}
    (h : ArrayInstead content key keyArray v) (size : Nat) :
    memberOrFirst content key keyArray size = [] := by
  obtain ⟨space, -, harray⟩ := h.array
  have hsingle : stringField content key size = [] := by
    unfold stringField gnsJsonGetString
    rw [h.missing]
    rfl
  have hnested : gnsJsonGetSubobject content keyArray 256 = none := by
    unfold gnsJsonGetSubobject
    rw [harray]
    rfl
  unfold memberOrFirst
  rw [hsingle, hnested]
  rfl

theorem arrayInstead_of_json {json : Json} {key keyArray : ObjectKey} {m : Found} {s : Bytes}
    {rest : Items} (hmissing : json.firstMember key = none) (harray : json.firstMember keyArray = some m)
    (hvalue : m.value = .array (.cons (.string s) rest)) :
    ∃ v, ArrayInstead json.text key.argument keyArray.argument v ∧
      ∀ size, copyString size v = s.take (size - 1) := by
  obtain ⟨behind, hposition⟩ := (isAt_of_firstMember harray).value
  have htext : m.position = 91 :: ([] ++ 34 :: (escape s ++ 34 :: (rest.text [44] ++ 93 :: behind))) := by
    rw [hposition, hvalue]
    simp only [Json.text, Items.text, List.nil_append, List.cons_append, List.append_assoc]
  refine ⟨escape s ++ 34 :: (rest.text [44] ++ 93 :: behind),
    ⟨?_, [], fun c hc => absurd hc List.not_mem_nil, ?_⟩, fun size => ?_⟩
  · rw [gnsJsonFindValue_text, hmissing]
    rfl
  · rw [gnsJsonFindValue_text, harray, Option.map_some, htext]
  · exact copyString_escape size s _

/-! ## What is configured -/

def Unnamed (content : Bytes) : Prop :=
  stringField content "PortFriendlyName" 64 = [] ∧ stringField content "Name" 64 = [] ∧
    stringField content "targetDeviceName" 64 = []

theorem endpointInterface_eq_nil (content : Bytes) : endpointInterface content = [] ↔ Unnamed content := by
  unfold endpointInterface Unnamed
  by_cases hport : stringField content "PortFriendlyName" 64 = []
  · by_cases hname : stringField content "Name" 64 = []
    · simp [hport, hname]
    · simp [hport, hname]
  · simp [hport]

theorem withPrefixLength_nil (content : Bytes) : withPrefixLength content [] = [] := by
  unfold withPrefixLength
  exact if_neg fun h => h.2.1 rfl

theorem withPrefixLength_ne_nil (content : Bytes) {address : Bytes} (h : address ≠ []) :
    withPrefixLength content address ≠ [] := by
  unfold withPrefixLength
  dsimp only
  split
  · exact List.append_ne_nil_of_left_ne_nil h _
  · exact h

def endpointCommands (content address gateway : Bytes) : List Command :=
  Command.endpointMac content (endpointInterface content) ++
    (Command.address (endpointInterface content) (withPrefixLength content address) ++
      (Command.link (endpointSettings content address gateway) ++ Command.defaultRoute gateway))

theorem runs_configureEndpoint (content : Bytes) (seq : Nat) (address gateway : Bytes) :
    Runs (configureEndpoint content seq address gateway)
      ((endpointCommands content address gateway).map Command.buffer) := by
  rw [endpointCommands, List.map_append]
  refine Runs.bind (runs_runAll_map (buffers_endpointMac _ _)) fun _ => ?_
  exact (runs_applyInterfaceSettings (endpointSettings content address gateway)).then_nothing
    fun _ => runs_gnsSendResult _ _ _

theorem length_commands_eq {content : Bytes} {seq : Nat} {address address' gateway gateway' : Bytes}
    (h : configureEndpoint content seq address gateway = configureEndpoint content seq address' gateway') :
    (endpointCommands content address gateway).length =
      (endpointCommands content address' gateway').length := by
  have hall := (runs_configureEndpoint content seq address gateway).all
  rw [h, (runs_configureEndpoint content seq address' gateway').all] at hall
  have hlen := congrArg List.length hall
  rw [List.length_map, List.length_map] at hlen
  exact hlen.symm

theorem configure_address_iff (content : Bytes) (seq : Nat) (address gateway : Bytes) :
    configureEndpoint content seq [] gateway = configureEndpoint content seq address gateway ↔
      Unnamed content ∨ address = [] := by
  constructor
  · intro h
    by_contra hcond
    obtain ⟨hnamed, haddress⟩ := not_or.mp hcond
    have hinterface := mt (endpointInterface_eq_nil content).mp hnamed
    have hlen := length_commands_eq h
    have hwith : Command.address (endpointInterface content) (withPrefixLength content address) =
        [quietly 256 [fixed "ifconfig ", .field (endpointInterface content), fixed " ",
          .field (withPrefixLength content address)]] :=
      if_pos ⟨hinterface, withPrefixLength_ne_nil content haddress⟩
    have hwithout : Command.address (endpointInterface content) (withPrefixLength content []) = [] :=
      if_neg fun hne => hne.2 (withPrefixLength_nil content)
    have hlink : Command.link (endpointSettings content [] gateway) =
        Command.link (endpointSettings content address gateway) := rfl
    rw [endpointCommands, endpointCommands, hwith, hwithout, hlink] at hlen
    simp only [List.length_append, List.length_nil, List.length_cons] at hlen
    omega
  · rintro (hunnamed | rfl)
    · have hinterface := (endpointInterface_eq_nil content).mpr hunnamed
      have hnone : ∀ a, applyAddress (endpointInterface content) a = pure 0 := fun a =>
        if_neg fun h => h.1 hinterface
      have happly : applyInterfaceSettings (endpointSettings content [] gateway) =
          applyInterfaceSettings (endpointSettings content address gateway) := by
        unfold applyInterfaceSettings
        simp only [endpointSettings, hnone]
        rfl
      rw [configureEndpoint, configureEndpoint, happly]
    · rfl

theorem configure_gateway_iff (content : Bytes) (seq : Nat) (address gateway : Bytes) :
    configureEndpoint content seq address [] = configureEndpoint content seq address gateway ↔
      gateway = [] := by
  constructor
  · intro h
    by_contra hgateway
    have hlen := length_commands_eq h
    have hwith : (Command.defaultRoute gateway).length = 3 := by
      unfold Command.defaultRoute
      dsimp only
      rw [if_pos hgateway]
      rfl
    have hwithout : (Command.defaultRoute []).length = 0 := rfl
    have hlink : Command.link (endpointSettings content address []) =
        Command.link (endpointSettings content address gateway) := rfl
    rw [endpointCommands, endpointCommands, hlink] at hlen
    simp only [List.length_append, hwith, hwithout] at hlen
    omega
  · rintro rfl
    rfl

/-- An array in place of the address, or of the gateway, counts as its first element exactly if that
changes nothing: it is empty, or, for the address, the interface has no name. -/
theorem array_members_iff {msg content : Bytes} (seq : Nat)
    (hcontent : gnsExtractContent msg = some content) (hjson : IsEndpoint content) :
    (∀ v, ArrayInstead content "IPAddress" "IPAddresses" v →
      (gnsHandleInterfaceConfiguration msg seq =
          configureEndpoint content seq (copyString 128 v) (foundGateway content) ↔
        Unnamed content ∨ copyString 128 v = [])) ∧
    ∀ v, ArrayInstead content "GatewayAddress" "Gateways" v →
      (gnsHandleInterfaceConfiguration msg seq =
          configureEndpoint content seq (foundAddress content) (copyString 64 v) ↔
        copyString 64 v = []) := by
  rw [handler_eq hcontent hjson]
  constructor
  · intro v h
    have hfound : foundAddress content = [] := memberOrFirst_array h 128
    rw [hfound]
    exact configure_address_iff content seq _ _
  · intro v h
    have hfound : foundGateway content = [] := memberOrFirst_array h 64
    rw [hfound]
    exact configure_gateway_iff content seq _ _

/-- An endpoint with an array of addresses and one of gateways. -/
def arrayEndpoint : Bytes :=
  ascii "\x7b\"Name\":\"hn0\",\"IPAddresses\":[\"10.0.0.2\"],\"Gateways\":[\"10.0.0.1\"]\x7d"

/-- A message of 12 bytes of header and the endpoint. -/
def arrayMessage : Bytes := List.replicate 12 0 ++ arrayEndpoint

set_option maxRecDepth 4000 in
theorem arrayMessage_content : gnsExtractContent arrayMessage = some arrayEndpoint := by decide

theorem array_members_endpoint :
    (∀ v, ArrayInstead arrayEndpoint "IPAddress" "IPAddresses" v →
      (gnsHandleInterfaceConfiguration arrayMessage 7 =
          configureEndpoint arrayEndpoint 7 (copyString 128 v) (foundGateway arrayEndpoint) ↔
        Unnamed arrayEndpoint ∨ copyString 128 v = [])) ∧
    ∀ v, ArrayInstead arrayEndpoint "GatewayAddress" "Gateways" v →
      (gnsHandleInterfaceConfiguration arrayMessage 7 =
          configureEndpoint arrayEndpoint 7 (foundAddress arrayEndpoint) (copyString 64 v) ↔
        copyString 64 v = []) :=
  array_members_iff 7 arrayMessage_content (by decide)

set_option maxRecDepth 4000 in
theorem arrayEndpoint_address :
    ArrayInstead arrayEndpoint "IPAddress" "IPAddresses"
      (ascii "10.0.0.2\"],\"Gateways\":[\"10.0.0.1\"]\x7d") where
  missing := by decide
  array := ⟨[], by decide, by decide⟩

set_option maxRecDepth 4000 in
/-- The interface `hn0` does not get the address `10.0.0.2`. -/
theorem array_address_lost :
    ¬ ∀ (msg content v : Bytes) (seq : Nat), gnsExtractContent msg = some content →
      IsEndpoint content → ArrayInstead content "IPAddress" "IPAddresses" v →
      gnsHandleInterfaceConfiguration msg seq =
        configureEndpoint content seq (copyString 128 v) (foundGateway content) := by
  intro h
  have hsame := h _ _ _ 7 arrayMessage_content (by decide) arrayEndpoint_address
  rw [handler_eq arrayMessage_content (by decide),
    show foundAddress arrayEndpoint = [] from memberOrFirst_array arrayEndpoint_address 128,
    configure_address_iff] at hsame
  rcases hsame with ⟨-, hname, -⟩ | hnone
  · exact absurd hname (by decide)
  · exact absurd hnone (by decide)

end WslFreeBSD.Gns
