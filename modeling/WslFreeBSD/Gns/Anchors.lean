import WslFreeBSD.Gns.Engine

/-!
# The pf anchors of port mappings and listeners

A port mapping is a redirect rule in the anchor `wsl_portmap`, a port listener a pass rule in the
anchor `wsl_listener`. The handlers keep no rules themselves: every message becomes one shell
command, and what is in the anchors afterwards is what the commands have made of them one after
the other. The shell with its `pfctl` is a parameter (`PfShell`), of which it is assumed that
loading an anchor replaces its rules and that flushing an anchor empties it.

Every command loads one rule, so each anchor holds the rule of the last message about it
(`rulesAfter_dispatchAll`), for a request to remove a mapping no less than for one to add it.
`anchors_exact_iff` says for which sequences of messages these are the right rules.
-/

namespace WslFreeBSD.Gns

open Lib Protocol

/-! ## The packet filter -/

/-- The anchors that the engine loads. -/
inductive Anchor where
  | portmap
  | listener
  deriving DecidableEq, Repr

def Anchor.name : Anchor → Bytes
  | .portmap => ascii "wsl_portmap"
  | .listener => ascii "wsl_listener"

abbrev Rules := Anchor → List Bytes

/-- The pipe that loads an anchor from the standard input. -/
def loadPipe (a : Anchor) : Bytes := ascii "' | pfctl -a " ++ a.name ++ ascii " -f - 2>/dev/null"

def loadCommand (a : Anchor) (rule : Bytes) : Bytes := ascii "echo '" ++ (rule ++ loadPipe a)

/-- The command that flushes the rules of an anchor, with the separator after it. -/
def flushCommand (a : Anchor) : Bytes := ascii "pfctl -a " ++ a.name ++ ascii " -Fr 2>/dev/null; "

/-- A text that the shell passes on unchanged between single quotes, as one line. -/
def OneLine (rule : Bytes) : Prop := 39 ∉ rule ∧ 10 ∉ rule

/-- A shell with `pfctl`: the rules after a command, and the status that `system` returns. -/
structure PfShell where
  run : Rules → Bytes → Rules × Int
  /-- Loading replaces the rules of the anchor by the standard input. -/
  load : ∀ s a rule, OneLine rule → (run s (loadCommand a rule)).2 = 0 →
    (run s (loadCommand a rule)).1 = Function.update s a [rule]
  /-- Flushing empties the anchor. -/
  flush : ∀ s a rule, OneLine rule →
    run s (flushCommand a ++ loadCommand a rule) = run (Function.update s a []) (loadCommand a rule)

/-- The rules after the commands of a trace, from empty anchors. -/
def rulesAfter (shell : PfShell) (t : HandlerTrace) : Rules :=
  t.foldl (fun s c =>
    match c.1 with
    | .system cmd => (shell.run s cmd).1
    | _ => s) fun _ => []

/-- The statuses that the handlers see are those of the shell. -/
def RunsOn (shell : PfShell) (env : Program.Environment Op Op.Answer) : Prop :=
  ∀ t cmd, env t (.system cmd) = (shell.run (rulesAfter shell t) cmd).2

/-- A call that is no command, or a command that has ended with status 0. -/
def succeeds : (Σ e, Op.Answer e) → Bool
  | ⟨.system _, status⟩ => status = 0
  | _ => true

def AllSucceed (t : HandlerTrace) : Prop := ∀ c ∈ t, succeeds c = true

instance (t : HandlerTrace) : Decidable (AllSucceed t) :=
  inferInstanceAs (Decidable (∀ c ∈ t, succeeds c = true))

/-! ## Requests -/

def rdrRule (proto : Bytes) (port : Int) : Bytes :=
  ascii "rdr pass inet proto " ++ proto ++ ascii " from any to any port " ++ decimal port ++
    ascii " -> 127.0.0.1 port " ++ decimal port

def passRule (proto : Bytes) (port : Int) : Bytes :=
  ascii "pass in proto " ++ proto ++ ascii " from any to any port " ++ decimal port

/-- What a message asks for. -/
inductive PfRequest where
  /-- `PortMappingRequest` -/
  | mapping (proto : Bytes) (port : Int) (remove : Bool)
  /-- `SetPortListener` -/
  | listener (proto : Bytes) (port : Int)
  deriving DecidableEq, Repr

namespace PfRequest

def proto : PfRequest → Bytes
  | mapping proto _ _ => proto
  | listener proto _ => proto

def port : PfRequest → Int
  | mapping _ port _ => port
  | listener _ port => port

def anchor : PfRequest → Anchor
  | mapping _ _ _ => .portmap
  | listener _ _ => .listener

def rule : PfRequest → Bytes
  | mapping proto port _ => rdrRule proto port
  | listener proto port => passRule proto port

def command : PfRequest → Bytes
  | mapping proto port true => loadCommand .portmap (rdrRule proto port)
  | mapping proto port false => flushCommand .portmap ++ loadCommand .portmap (rdrRule proto port)
  | listener proto port => loadCommand .listener (passRule proto port)

end PfRequest

/-- The mapping that a payload asks for; the protocol defaults to `tcp`. -/
def mappingRequest (content : Bytes) : PfRequest :=
  let protocol := stringField content "Protocol" 16
  .mapping (if protocol ≠ [] ∧ ¬ isText protocol "any" then protocol else ascii "tcp")
    (gnsJsonGetInt content "Port" 0) (gnsJsonGetBool content "Remove" false)

def listenerRequest (content : Bytes) : PfRequest :=
  .listener (if gnsJsonGetInt content "Family" 2 = 2 then ascii "tcp" else ascii "udp")
    (gnsJsonGetInt content "Port" 0)

/-- The request of a message, if it is about an anchor. -/
def pfRequest (msg : Bytes) : Option PfRequest :=
  match gnsExtractContent msg with
  | none => none
  | some content =>
    if messageType msg = LxGnsMessagePortMappingRequest then some (mappingRequest content)
    else if messageType msg = LxGnsMessageSetPortListener then some (listenerRequest content)
    else none

def isProtocolByte (c : UInt8) : Bool :=
  (48 ≤ c && c ≤ 57) || (65 ≤ c && c ≤ 90) || (97 ≤ c && c ≤ 122) || c ∈ ascii "+-./_"

def IsProtocol (proto : Bytes) : Prop := ∀ c ∈ proto, isProtocolByte c = true

/-- A protocol by its name and a port from 1 to 65535. -/
def Portable (proto : Bytes) (port : Int) : Prop := IsProtocol proto ∧ 0 < port ∧ port ≤ 65535

instance (proto : Bytes) : Decidable (IsProtocol proto) := inferInstanceAs (Decidable (∀ _ ∈ _, _))

instance (proto : Bytes) (port : Int) : Decidable (Portable proto port) :=
  inferInstanceAs (Decidable (_ ∧ _))

def IsPfMessage (msg : Bytes) : Prop := ∃ r ∈ pfRequest msg, Portable r.proto r.port

instance (msg : Bytes) : Decidable (IsPfMessage msg) :=
  inferInstanceAs (Decidable (∃ r ∈ pfRequest msg, _))

def dispatchAll : Globals → List Bytes → Handler Globals
  | g, [] => pure g
  | g, msg :: msgs => do
    let g ← dispatch g msg
    dispatchAll g msgs

/-! ## The command of a message -/

theorem length_copyString (room : Nat) (v : Bytes) : (copyString room v).length ≤ room - 1 := by
  fun_induction copyString room v with
  | case1 => simp
  | case2 => simp
  | case3 room c v hroom ih =>
    rw [List.length_cons]
    omega
  | case4 => simp
  | case5 room c v _ hroom ih =>
    rw [List.length_cons]
    omega

theorem length_stringField (content : Bytes) (key : String) (size : Nat) :
    (stringField content key size).length ≤ size - 1 := by
  unfold stringField gnsJsonGetString
  split
  · exact length_copyString _ _
  · exact Nat.zero_le _

theorem length_decimal_port {port : Int} (h : 0 < port ∧ port ≤ 65535) : (decimal port).length ≤ 5 := by
  obtain ⟨n, rfl⟩ := Int.eq_ofNat_of_zero_le (le_of_lt h.1)
  apply length_decimal_le (by decide)
  omega

theorem snprintf_command {r : PfRequest} (hproto : r.proto.length ≤ 15)
    (hport : 0 < r.port ∧ r.port ≤ 65535) : snprintf 256 r.command = r.command := by
  have hdec := length_decimal_port hport
  apply List.take_of_length_le
  cases r with
  | mapping proto port remove =>
    simp only [PfRequest.proto] at hproto
    simp only [PfRequest.port] at hdec
    have hload : (loadCommand .portmap (rdrRule proto port)).length ≤ 140 := by
      simp only [loadCommand, loadPipe, rdrRule, Anchor.name, List.length_append, ascii,
        List.length_map, String.reduceToList, List.length_cons, List.length_nil]
      omega
    cases remove with
    | true => exact hload.trans (by decide)
    | false =>
      rw [PfRequest.command, List.length_append]
      have hflush : (flushCommand .portmap).length = 38 := by decide
      omega
  | listener proto port =>
    simp only [PfRequest.proto] at hproto
    simp only [PfRequest.port] at hdec
    simp only [PfRequest.command, loadCommand, loadPipe, passRule, Anchor.name, List.length_append,
      ascii, List.length_map, String.reduceToList, List.length_cons, List.length_nil]
    omega

theorem length_proto {msg : Bytes} {r : PfRequest} (h : pfRequest msg = some r) :
    r.proto.length ≤ 15 := by
  have hmapping : ∀ content, (mappingRequest content).proto.length ≤ 15 := by
    intro content
    unfold mappingRequest PfRequest.proto
    dsimp only
    split
    · exact length_stringField content "Protocol" 16
    · decide
  have hlistener : ∀ content, (listenerRequest content).proto.length ≤ 15 := by
    intro content
    unfold listenerRequest PfRequest.proto
    dsimp only
    split <;> decide
  unfold pfRequest at h
  split at h
  · cases h
  · split at h
    · cases h
      exact hmapping _
    · split at h
      · cases h
        exact hlistener _
      · cases h

theorem portMappingCommand_eq {content : Bytes} (hproto : (mappingRequest content).proto.length ≤ 15)
    (hport : 0 < (mappingRequest content).port ∧ (mappingRequest content).port ≤ 65535) :
    portMappingCommand content = some (mappingRequest content).command := by
  have hrange : 0 < gnsJsonGetInt content "Port" 0 ∧ gnsJsonGetInt content "Port" 0 ≤ 65535 := hport
  rw [← snprintf_command hproto hport]
  unfold portMappingCommand
  dsimp only
  rw [if_pos hrange]
  simp only [mappingRequest, PfRequest.command]
  cases gnsJsonGetBool content "Remove" false with
  | true => simp [portmapRule, loadCommand, loadPipe, rdrRule, Anchor.name, ascii]
  | false => simp [portmapRule, loadCommand, loadPipe, flushCommand, rdrRule, Anchor.name, ascii]

theorem portListenerCommand_eq {content : Bytes}
    (hproto : (listenerRequest content).proto.length ≤ 15)
    (hport : 0 < (listenerRequest content).port ∧ (listenerRequest content).port ≤ 65535) :
    portListenerCommand content = some (listenerRequest content).command := by
  have hrange : 0 < gnsJsonGetInt content "Port" 0 ∧ gnsJsonGetInt content "Port" 0 ≤ 65535 := hport
  rw [← snprintf_command hproto hport]
  unfold portListenerCommand
  dsimp only
  rw [if_pos hrange]
  simp [listenerRequest, PfRequest.command, loadCommand, loadPipe, passRule, Anchor.name, ascii]

def commands (t : HandlerTrace) : List Bytes :=
  t.filterMap fun c =>
    match c.1 with
    | .system cmd => some cmd
    | _ => none

@[simp] theorem commands_append (t u : HandlerTrace) : commands (t ++ u) = commands t ++ commands u :=
  List.filterMap_append

theorem ensures_commandHandler {command : Bytes → Option Bytes} {msg content cmd : Bytes}
    (applied failed : String) (seq : Nat) (hcontent : gnsExtractContent msg = some content)
    (hcmd : command content = some cmd) :
    (commandHandler command applied failed msg seq).Ensures fun _ t => commands t = [cmd] := by
  unfold commandHandler
  rw [hcontent]
  dsimp only
  rw [hcmd]
  intro status answers
  rfl

theorem ensures_dispatch (g : Globals) {msg : Bytes} {r : PfRequest} (h : pfRequest msg = some r)
    (hport : 0 < r.port ∧ r.port ≤ 65535) :
    (dispatch g msg).Ensures fun _ t => commands t = [r.command] := by
  have hproto := length_proto h
  have hkeep : ∀ p : Handler Unit, (p.Ensures fun _ t => commands t = [r.command]) →
      (keep g p).Ensures fun _ t => commands t = [r.command] := by
    intro p hp
    apply Program.ensures_bind.mpr
    apply hp.mono
    intro _ t ht
    rwa [Program.ensures_pure, List.append_nil]
  unfold pfRequest at h
  split at h
  · cases h
  · rename_i content hcontent
    split at h
    · rename_i htype
      cases h
      have hdispatch : dispatch g msg = keep g (gnsHandlePortMappingRequest msg (sequenceNumber msg)) := by
        unfold dispatch
        rw [htype]
        rfl
      rw [hdispatch]
      exact hkeep _ (ensures_commandHandler _ _ _ hcontent (portMappingCommand_eq hproto hport))
    · split at h
      · rename_i htype
        cases h
        have hdispatch : dispatch g msg = keep g (gnsHandleSetPortListener msg (sequenceNumber msg)) := by
          unfold dispatch
          rw [htype]
          rfl
        rw [hdispatch]
        exact hkeep _ (ensures_commandHandler _ _ _ hcontent (portListenerCommand_eq hproto hport))
      · cases h

/-! ## The rules after a run -/

def requests (msgs : List Bytes) : List PfRequest := msgs.filterMap pfRequest

theorem portable_of_mem_requests {msgs : List Bytes} (h : ∀ msg ∈ msgs, IsPfMessage msg)
    {r : PfRequest} (hr : r ∈ requests msgs) : Portable r.proto r.port := by
  obtain ⟨msg, hmsg, hreq⟩ := List.mem_filterMap.mp hr
  obtain ⟨r', hr', hport⟩ := h msg hmsg
  obtain rfl : r = r' := Option.some.inj (hreq.symm.trans hr')
  exact hport

theorem ensures_dispatchAll (g : Globals) (msgs : List Bytes) (h : ∀ msg ∈ msgs, IsPfMessage msg) :
    (dispatchAll g msgs).Ensures fun _ t => commands t = (requests msgs).map PfRequest.command := by
  induction msgs generalizing g with
  | nil => exact rfl
  | cons msg msgs ih =>
    obtain ⟨r, hr, -, hport⟩ := h msg List.mem_cons_self
    have hreq : requests (msg :: msgs) = r :: requests msgs := List.filterMap_cons_some hr
    apply Program.ensures_bind.mpr
    apply (ensures_dispatch g hr hport).mono
    intro g' t ht
    apply (ih g' fun msg hmsg => h msg (List.mem_cons_of_mem _ hmsg)).mono
    intro _ u hu
    rw [commands_append, ht, hu, hreq]
    rfl

theorem oneLine_of_not_mem {rule : Bytes} (h : ∀ c ∈ rule, c ≠ 39 ∧ c ≠ 10) : OneLine rule :=
  ⟨fun hc => (h 39 hc).1 rfl, fun hc => (h 10 hc).2 rfl⟩

theorem ne_of_class {inClass : UInt8 → Bool} {c d : UInt8} (h : inClass c = true)
    (hd : inClass d = false) : c ≠ d := by
  rintro rfl
  rw [hd] at h
  cases h

theorem isProtocolByte_spec {c : UInt8} (h : isProtocolByte c = true) : c ≠ 39 ∧ c ≠ 10 ∧ c ≠ 32 :=
  ⟨ne_of_class h rfl, ne_of_class h rfl, ne_of_class h rfl⟩

theorem isDecDigit_spec {c : UInt8} (h : isDecDigit c = true) : c ≠ 39 ∧ c ≠ 10 ∧ c ≠ 32 :=
  ⟨ne_of_class h rfl, ne_of_class h rfl, ne_of_class h rfl⟩

theorem mem_decimal_port {port : Int} (h : 0 < port) {c : UInt8} (hc : c ∈ decimal port) :
    c ≠ 39 ∧ c ≠ 10 ∧ c ≠ 32 := by
  obtain ⟨n, rfl⟩ := Int.eq_ofNat_of_zero_le (le_of_lt h)
  exact isDecDigit_spec (isDecDigit_of_mem_decimal hc)

theorem oneLine_rule {r : PfRequest} (h : Portable r.proto r.port) : OneLine r.rule := by
  obtain ⟨hproto, hport, -⟩ := h
  have htext : ∀ c ∈ ascii "rdr pass inet proto " ++ ascii "pass in proto " ++
      ascii " from any to any port " ++ ascii " -> 127.0.0.1 port ", c ≠ 39 ∧ c ≠ 10 := by
    decide
  have hbyte : ∀ c ∈ r.proto ++ decimal r.port, c ≠ 39 ∧ c ≠ 10 := by
    intro c hc
    rcases List.mem_append.mp hc with hc | hc
    · exact ⟨(isProtocolByte_spec (hproto c hc)).1, (isProtocolByte_spec (hproto c hc)).2.1⟩
    · exact ⟨(mem_decimal_port hport hc).1, (mem_decimal_port hport hc).2.1⟩
  apply oneLine_of_not_mem
  intro c hc
  cases r with
  | mapping proto port remove =>
    simp only [PfRequest.rule, rdrRule, List.mem_append] at hc
    simp only [PfRequest.proto, PfRequest.port, List.mem_append] at hbyte htext
    grind
  | listener proto port =>
    simp only [PfRequest.rule, passRule, List.mem_append] at hc
    simp only [PfRequest.proto, PfRequest.port, List.mem_append] at hbyte htext
    grind

theorem run_command (shell : PfShell) (s : Rules) {r : PfRequest} (h : Portable r.proto r.port)
    (hok : (shell.run s r.command).2 = 0) :
    (shell.run s r.command).1 = Function.update s r.anchor [r.rule] := by
  have hline := oneLine_rule h
  cases r with
  | mapping proto port remove =>
    cases remove with
    | true => exact shell.load s .portmap _ hline hok
    | false =>
      simp only [PfRequest.command, PfRequest.rule] at hok hline ⊢
      rw [shell.flush s .portmap _ hline] at hok ⊢
      rw [shell.load _ .portmap _ hline hok, Function.update_idem]
      rfl
  | listener proto port => exact shell.load s .listener _ hline hok

/-- The rules that the requests leave, one after the other. -/
def loaded (s : Rules) (rs : List PfRequest) : Rules :=
  rs.foldl (fun s r => Function.update s r.anchor [r.rule]) s

theorem rulesAfter_concat (shell : PfShell) (t : HandlerTrace) (c : Σ e, Op.Answer e) :
    rulesAfter shell (t ++ [c]) =
      match c.1 with
      | .system cmd => (shell.run (rulesAfter shell t) cmd).1
      | _ => rulesAfter shell t := by
  unfold rulesAfter
  rw [List.foldl_append]
  rfl

theorem rulesAfter_append {shell : PfShell} {env : Program.Environment Op Op.Answer}
    (hshell : RunsOn shell env) (u : HandlerTrace) {t : HandlerTrace} {rs : List PfRequest}
    (hans : Program.AnsweredBy env t u) (hcmds : commands u = rs.map PfRequest.command)
    (hport : ∀ r ∈ rs, Portable r.proto r.port) (hok : AllSucceed u) :
    rulesAfter shell (t ++ u) = loaded (rulesAfter shell t) rs := by
  induction u generalizing t rs with
  | nil =>
    obtain rfl : rs = [] := List.map_eq_nil_iff.mp hcmds.symm
    rw [List.append_nil]
    rfl
  | cons c u ih =>
    obtain ⟨hstatus, hans⟩ := hans
    have hok' : AllSucceed u := fun c hc => hok c (List.mem_cons_of_mem _ hc)
    have happ : t ++ c :: u = t ++ [c] ++ u := by simp
    rw [happ]
    obtain ⟨e, answer⟩ := c
    cases e with
    | system cmd =>
      cases rs with
      | nil => cases hcmds
      | cons r rs =>
        obtain ⟨rfl, hrest⟩ : cmd = r.command ∧ commands u = rs.map PfRequest.command :=
          List.cons.inj hcmds
        have hzero : (shell.run (rulesAfter shell t) r.command).2 = 0 := by
          rw [← hshell t r.command, ← hstatus]
          exact of_decide_eq_true (hok _ List.mem_cons_self)
        have hstep := run_command shell (rulesAfter shell t) (hport r List.mem_cons_self) hzero
        rw [ih hans hrest (fun r hr => hport r (List.mem_cons_of_mem _ hr)) hok', rulesAfter_concat]
        dsimp only
        rw [hstep]
        rfl
    | _ =>
      rw [ih hans hcmds hport hok', rulesAfter_concat]

theorem rulesAfter_dispatchAll {shell : PfShell} {env : Program.Environment Op Op.Answer}
    (hshell : RunsOn shell env) (g : Globals) {msgs : List Bytes} (h : ∀ msg ∈ msgs, IsPfMessage msg)
    (hok : AllSucceed ((dispatchAll g msgs).run env []).2) :
    rulesAfter shell ((dispatchAll g msgs).run env []).2 = loaded (fun _ => []) (requests msgs) := by
  obtain ⟨u, hu, hans, hcmds⟩ := (ensures_dispatchAll g msgs h).run_answered env []
  rw [hu] at hok ⊢
  exact rulesAfter_append hshell u hans hcmds (fun r hr => portable_of_mem_requests h hr) hok

/-! ## The right rules -/

/-- The mapping requests: protocol, port, and whether the mapping is to be removed. -/
def mappings (rs : List PfRequest) : List (Bytes × Int × Bool) :=
  rs.filterMap fun r =>
    match r with
    | .mapping proto port remove => some (proto, port, remove)
    | .listener _ _ => none

def listeners (rs : List PfRequest) : List (Bytes × Int) :=
  rs.filterMap fun r =>
    match r with
    | .mapping _ _ _ => none
    | .listener proto port => some (proto, port)

/-- Whether the most recent request for a protocol and a port was to remove the mapping. -/
def latest (rs : List PfRequest) (proto : Bytes) (port : Int) : Option Bool :=
  ((mappings rs).filter fun m => m.1 = proto ∧ m.2.1 = port).getLast?.map fun m => m.2.2

/-- There is one redirect rule for every protocol and port whose most recent request was to add
it, and none for any other. -/
def PortmapExact (rs : List PfRequest) (rules : Rules) : Prop :=
  ∀ proto port, Portable proto port →
    (rules .portmap).count (rdrRule proto port) = if latest rs proto port = some false then 1 else 0

/-- Every port for which a listener was configured is allowed. -/
def ListenersAllowed (rs : List PfRequest) (rules : Rules) : Prop :=
  ∀ l ∈ listeners rs, passRule l.1 l.2 ∈ rules .listener

/-- The last mapping request of all adds its mapping, and every other mapping that was ever
requested has been removed by its own most recent request. -/
def OnlyLastAdded (rs : List PfRequest) : Prop :=
  ∀ z ∈ (mappings rs).getLast?, z.2.2 = false ∧
    ∀ m ∈ mappings rs, (m.1, m.2.1) ≠ (z.1, z.2.1) → latest rs m.1 m.2.1 = some true

/-- All listeners are for one protocol and port. -/
def OneListener (rs : List PfRequest) : Prop := ∀ l ∈ listeners rs, ∀ l' ∈ listeners rs, l = l'

theorem loaded_concat (s : Rules) (rs : List PfRequest) (r : PfRequest) :
    loaded s (rs ++ [r]) = Function.update (loaded s rs) r.anchor [r.rule] := by
  unfold loaded
  rw [List.foldl_append]
  rfl

theorem loaded_eq (rs : List PfRequest) :
    loaded (fun _ => []) rs .portmap =
        (mappings rs).getLast?.toList.map (fun m => rdrRule m.1 m.2.1) ∧
      loaded (fun _ => []) rs .listener =
        (listeners rs).getLast?.toList.map fun l => passRule l.1 l.2 := by
  induction rs using List.reverseRecOn with
  | nil => exact ⟨rfl, rfl⟩
  | append_singleton rs r ih =>
    obtain ⟨hmap, hlist⟩ := ih
    rw [loaded_concat]
    cases r with
    | mapping proto port remove =>
      constructor
      · simp [mappings, PfRequest.anchor, PfRequest.rule]
      · simpa [listeners, PfRequest.anchor] using hlist
    | listener proto port =>
      constructor
      · simpa [mappings, PfRequest.anchor] using hmap
      · simp [listeners, PfRequest.anchor, PfRequest.rule]

theorem word_inj {w w' x x' : Bytes} (hw : 32 ∉ w) (hw' : 32 ∉ w') (h : w ++ 32 :: x = w' ++ 32 :: x') :
    w = w' ∧ x = x' := by
  have htake : ∀ {w : Bytes} (x : Bytes), 32 ∉ w → (w ++ 32 :: x).takeWhile (· ≠ 32) = w := by
    intro w x hw
    rw [List.takeWhile_append_of_pos]
    · simp
    · intro c hc
      exact decide_eq_true fun heq => hw (heq ▸ hc)
  have hword : w = w' := by rw [← htake x hw, h, htake x' hw']
  subst hword
  exact ⟨rfl, (List.cons.inj (List.append_cancel_left h)).2⟩

theorem rdrRule_inj {proto proto' : Bytes} {port port' : Int} (h : Portable proto port)
    (h' : Portable proto' port') (heq : rdrRule proto port = rdrRule proto' port') :
    proto = proto' ∧ port = port' := by
  obtain ⟨hproto, hport, -⟩ := h
  obtain ⟨hproto', hport', -⟩ := h'
  have hform : ∀ (p : Bytes) (n : Int), rdrRule p n = ascii "rdr pass inet proto " ++
      (p ++ 32 :: (ascii "from any to any port " ++
        (decimal n ++ 32 :: (ascii "-> 127.0.0.1 port " ++ decimal n)))) := by
    intro p n
    simp [rdrRule, ascii]
  rw [hform, hform] at heq
  obtain ⟨rfl, hrest⟩ := word_inj (fun hc => (isProtocolByte_spec (hproto 32 hc)).2.2 rfl)
    (fun hc => (isProtocolByte_spec (hproto' 32 hc)).2.2 rfl) (List.append_cancel_left heq)
  obtain ⟨hdec, -⟩ := word_inj (fun hc => (mem_decimal_port hport hc).2.2 rfl)
    (fun hc => (mem_decimal_port hport' hc).2.2 rfl) (List.append_cancel_left hrest)
  obtain ⟨n, rfl⟩ := Int.eq_ofNat_of_zero_le (le_of_lt hport)
  obtain ⟨n', rfl⟩ := Int.eq_ofNat_of_zero_le (le_of_lt hport')
  exact ⟨rfl, congrArg Int.ofNat (decimal_injective hdec)⟩

theorem count_rdrRule {proto proto' : Bytes} {port port' : Int} (h : Portable proto port)
    (h' : Portable proto' port') :
    List.count (rdrRule proto port) [rdrRule proto' port'] =
      if (proto, port) = (proto', port') then 1 else 0 := by
  rw [List.count_singleton]
  by_cases heq : (proto, port) = (proto', port')
  · obtain ⟨rfl, rfl⟩ := Prod.mk.inj heq
    simp
  · have hne : rdrRule proto' port' ≠ rdrRule proto port := by
      intro hrule
      obtain ⟨rfl, rfl⟩ := rdrRule_inj h' h hrule
      exact heq rfl
    rw [if_neg heq, if_neg (by simpa using hne)]

theorem passRule_inj {proto proto' : Bytes} {port port' : Int} (h : Portable proto port)
    (h' : Portable proto' port') (heq : passRule proto port = passRule proto' port') :
    proto = proto' ∧ port = port' := by
  obtain ⟨hproto, hport, -⟩ := h
  obtain ⟨hproto', hport', -⟩ := h'
  have hform : ∀ (p : Bytes) (n : Int), passRule p n = ascii "pass in proto " ++
      (p ++ 32 :: (ascii "from any to any port " ++ decimal n)) := by
    intro p n
    simp [passRule, ascii]
  rw [hform, hform] at heq
  obtain ⟨rfl, hrest⟩ := word_inj (fun hc => (isProtocolByte_spec (hproto 32 hc)).2.2 rfl)
    (fun hc => (isProtocolByte_spec (hproto' 32 hc)).2.2 rfl) (List.append_cancel_left heq)
  have hdec := List.append_cancel_left hrest
  obtain ⟨n, rfl⟩ := Int.eq_ofNat_of_zero_le (le_of_lt hport)
  obtain ⟨n', rfl⟩ := Int.eq_ofNat_of_zero_le (le_of_lt hport')
  exact ⟨rfl, congrArg Int.ofNat (decimal_injective hdec)⟩

section

variable {rs : List PfRequest} (hrs : ∀ r ∈ rs, Portable r.proto r.port)

include hrs

theorem portable_of_mem_mappings {m : Bytes × Int × Bool} (hm : m ∈ mappings rs) :
    Portable m.1 m.2.1 := by
  obtain ⟨r, hr, hreq⟩ := List.mem_filterMap.mp hm
  have hport := hrs r hr
  cases r with
  | mapping proto port remove =>
    cases hreq
    exact hport
  | listener proto port => cases hreq

theorem portable_of_mem_listeners {l : Bytes × Int} (hl : l ∈ listeners rs) : Portable l.1 l.2 := by
  obtain ⟨r, hr, hreq⟩ := List.mem_filterMap.mp hl
  have hport := hrs r hr
  cases r with
  | mapping proto port remove => cases hreq
  | listener proto port =>
    cases hreq
    exact hport

omit hrs in
theorem latest_getLast {z : Bytes × Int × Bool} (hz : (mappings rs).getLast? = some z) :
    latest rs z.1 z.2.1 = some z.2.2 := by
  obtain ⟨ms, hms⟩ := List.getLast?_eq_some_iff.mp hz
  unfold latest
  rw [hms, List.filter_append]
  simp

omit hrs in
theorem exists_mem_of_latest {proto : Bytes} {port : Int} {b : Bool}
    (h : latest rs proto port = some b) : ∃ m ∈ mappings rs, m.1 = proto ∧ m.2.1 = port := by
  obtain ⟨m, hm, -⟩ := Option.map_eq_some_iff.mp h
  obtain ⟨hmem, hkey⟩ := List.mem_filter.mp (List.mem_of_getLast? hm)
  exact ⟨m, hmem, of_decide_eq_true hkey⟩

omit hrs in
theorem exists_latest_of_mem {m : Bytes × Int × Bool} (hm : m ∈ mappings rs) :
    ∃ b, latest rs m.1 m.2.1 = some b := by
  have hfilter : m ∈ (mappings rs).filter fun m' => m'.1 = m.1 ∧ m'.2.1 = m.2.1 :=
    List.mem_filter.mpr ⟨hm, decide_eq_true ⟨rfl, rfl⟩⟩
  have hsome := List.getLast?_isSome.mpr (List.ne_nil_of_mem hfilter)
  obtain ⟨z, hz⟩ := Option.isSome_iff_exists.mp hsome
  exact ⟨z.2.2, by rw [latest, hz]; rfl⟩

theorem portmapExact_loaded_iff : PortmapExact rs (loaded (fun _ => []) rs) ↔ OnlyLastAdded rs := by
  unfold PortmapExact OnlyLastAdded
  rw [(loaded_eq rs).1]
  cases hz : (mappings rs).getLast? with
  | none =>
    have hnil : mappings rs = [] := List.getLast?_eq_none_iff.mp hz
    constructor
    · intro _ z hmem
      cases hmem
    · intro _ proto port _
      simp [latest, hnil]
  | some z =>
    have hzport := portable_of_mem_mappings hrs (List.mem_of_getLast? hz)
    have hlast := latest_getLast hz
    constructor
    · intro h z' hz'
      obtain rfl : z = z' := Option.some.inj hz'
      constructor
      · have hown := (count_rdrRule hzport hzport).symm.trans (h z.1 z.2.1 hzport)
        rw [if_pos rfl, hlast] at hown
        by_contra hne
        rw [if_neg (by simpa using hne)] at hown
        cases hown
      · intro m hm hne
        have hmport := portable_of_mem_mappings hrs hm
        have hother := (count_rdrRule hmport hzport).symm.trans (h m.1 m.2.1 hmport)
        rw [if_neg hne] at hother
        obtain ⟨b, hb⟩ := exists_latest_of_mem hm
        cases b with
        | true => exact hb
        | false =>
          rw [hb, if_pos rfl] at hother
          cases hother
    · intro h proto port hport
      obtain ⟨hadd, hothers⟩ := h z rfl
      refine (count_rdrRule hport hzport).trans ?_
      by_cases heq : (proto, port) = (z.1, z.2.1)
      · obtain ⟨rfl, rfl⟩ := Prod.mk.inj heq
        rw [if_pos rfl, hlast, hadd, if_pos rfl]
      · rw [if_neg heq, if_neg]
        intro hfalse
        obtain ⟨m, hm, rfl, rfl⟩ := exists_mem_of_latest hfalse
        rw [hothers m hm heq] at hfalse
        cases hfalse

theorem listenersAllowed_loaded_iff :
    ListenersAllowed rs (loaded (fun _ => []) rs) ↔ OneListener rs := by
  unfold ListenersAllowed OneListener
  rw [(loaded_eq rs).2]
  cases hz : (listeners rs).getLast? with
  | none =>
    have hnil : listeners rs = [] := List.getLast?_eq_none_iff.mp hz
    simp [hnil]
  | some z =>
    have hzmem := List.mem_of_getLast? hz
    have hiff : ∀ l ∈ listeners rs,
        passRule l.1 l.2 ∈ (some z).toList.map (fun l => passRule l.1 l.2) ↔ l = z := by
      intro l hl
      have hmem : passRule l.1 l.2 ∈ (some z).toList.map (fun l => passRule l.1 l.2) ↔
          passRule l.1 l.2 = passRule z.1 z.2 := by simp
      rw [hmem]
      constructor
      · intro hrule
        obtain ⟨h1, h2⟩ := passRule_inj (portable_of_mem_listeners hrs hl)
          (portable_of_mem_listeners hrs hzmem) hrule
        exact Prod.ext h1 h2
      · rintro rfl
        rfl
    constructor
    · intro h l hl l' hl'
      rw [(hiff l hl).mp (h l hl), (hiff l' hl').mp (h l' hl')]
    · intro h l hl
      exact (hiff l hl).mpr (h l hl z hzmem)

end

/-- In every run on messages about the anchors whose commands all succeed, the anchors hold the
right rules at the end if and only if at most one mapping is wanted, that of the last request, and
the listeners are all for one protocol and port. -/
theorem anchors_exact_iff (shell : PfShell) (env : Program.Environment Op Op.Answer)
    (hshell : RunsOn shell env) (g : Globals) (msgs : List Bytes)
    (hmsgs : ∀ msg ∈ msgs, IsPfMessage msg)
    (hok : AllSucceed ((dispatchAll g msgs).run env []).2) :
    (PortmapExact (requests msgs) (rulesAfter shell ((dispatchAll g msgs).run env []).2) ∧
        ListenersAllowed (requests msgs) (rulesAfter shell ((dispatchAll g msgs).run env []).2)) ↔
      OnlyLastAdded (requests msgs) ∧ OneListener (requests msgs) := by
  have hrs : ∀ r ∈ requests msgs, Portable r.proto r.port :=
    fun r hr => portable_of_mem_requests hmsgs hr
  rw [rulesAfter_dispatchAll hshell g hmsgs hok, portmapExact_loaded_iff hrs,
    listenersAllowed_loaded_iff hrs]

/-! ## A shell -/

/-- Runs a command that loads one rule; other commands are not found. -/
def runLoad (s : Rules) (cmd : Bytes) : Rules × Int :=
  let quoted := cmd.drop (ascii "echo '").length
  let rule := quoted.takeWhile (· ≠ 39)
  let pipe := quoted.dropWhile (· ≠ 39)
  if (ascii "echo '").isPrefixOf cmd ∧ pipe = loadPipe .portmap then
    (Function.update s .portmap [rule], 0)
  else if (ascii "echo '").isPrefixOf cmd ∧ pipe = loadPipe .listener then
    (Function.update s .listener [rule], 0)
  else (s, 127 * 256)

/-- Runs a command that loads one rule, with or without a command in front of it that flushes an
anchor. -/
def runPf (s : Rules) (cmd : Bytes) : Rules × Int :=
  if (flushCommand .portmap).isPrefixOf cmd then
    runLoad (Function.update s .portmap []) (cmd.drop (flushCommand .portmap).length)
  else if (flushCommand .listener).isPrefixOf cmd then
    runLoad (Function.update s .listener []) (cmd.drop (flushCommand .listener).length)
  else runLoad s cmd

theorem runLoad_loadCommand (s : Rules) (a : Anchor) {rule : Bytes} (h : OneLine rule) :
    runLoad s (loadCommand a rule) = (Function.update s a [rule], 0) := by
  have hpre : (ascii "echo '").isPrefixOf (loadCommand a rule) = true := by
    rw [List.isPrefixOf_iff_prefix]
    exact List.prefix_append _ _
  have hquoted : (loadCommand a rule).drop (ascii "echo '").length = rule ++ loadPipe a :=
    List.drop_left
  have hrule : ∀ c ∈ rule, decide (c ≠ 39) = true := fun c hc =>
    decide_eq_true fun heq => h.1 (heq ▸ hc)
  have htake : (rule ++ loadPipe a).takeWhile (· ≠ 39) = rule := by
    rw [List.takeWhile_append_of_pos hrule]
    cases a <;> simp [loadPipe, ascii]
  have hdrop : (rule ++ loadPipe a).dropWhile (· ≠ 39) = loadPipe a := by
    rw [List.dropWhile_append_of_pos hrule]
    cases a <;> simp [loadPipe, ascii]
  unfold runLoad
  dsimp only
  rw [hquoted, htake, hdrop, hpre]
  cases a with
  | portmap => rw [if_pos ⟨rfl, rfl⟩]
  | listener => rw [if_neg (by decide), if_pos ⟨rfl, rfl⟩]

theorem runPf_loadCommand (s : Rules) (a : Anchor) {rule : Bytes} (h : OneLine rule) :
    runPf s (loadCommand a rule) = (Function.update s a [rule], 0) := by
  have hne : ∀ b, (flushCommand b).isPrefixOf (loadCommand a rule) = false := by
    intro b
    cases b <;> rfl
  unfold runPf
  rw [hne, hne, if_neg Bool.false_ne_true, if_neg Bool.false_ne_true, runLoad_loadCommand s a h]

theorem runPf_flushCommand (s : Rules) (a : Anchor) (cmd : Bytes) :
    runPf s (flushCommand a ++ cmd) = runLoad (Function.update s a []) cmd := by
  have hpre : (flushCommand a).isPrefixOf (flushCommand a ++ cmd) = true := by
    rw [List.isPrefixOf_iff_prefix]
    exact List.prefix_append _ _
  unfold runPf
  cases a with
  | portmap => rw [if_pos hpre, List.drop_left]
  | listener =>
    have hne : (flushCommand .portmap).isPrefixOf (flushCommand .listener ++ cmd) = false := rfl
    rw [hne, if_neg Bool.false_ne_true, if_pos hpre, List.drop_left]

/-- A shell that knows the commands of the engine, in which all of them succeed. -/
def pfShell : PfShell where
  run := runPf
  load s a rule h _ := by rw [runPf_loadCommand s a h]
  flush s a rule h := by rw [runPf_flushCommand, runLoad_loadCommand _ a h, runPf_loadCommand _ a h]

/-- The environment of a shell: it answers the commands, and nothing else works. -/
def shellEnvironment (shell : PfShell) : Program.Environment Op Op.Answer := fun t e =>
  match e with
  | .system cmd => (shell.run (rulesAfter shell t) cmd).2
  | .popen _ => none
  | .writeFile _ _ => false
  | .connect _ _ _ => none
  | .socketIpv6 => false
  | .send _ => []

theorem runsOn_shellEnvironment (shell : PfShell) : RunsOn shell (shellEnvironment shell) :=
  fun _ _ => rfl

def jsonMessage (type : Nat) (content : String) : Bytes :=
  header type (12 + (ascii content).length) 1 ++ ascii content

/-- A mapping removed, another one added, and a listener. -/
def mixedMessages : List Bytes :=
  [jsonMessage LxGnsMessagePortMappingRequest
      "\x7b\"Port\":53,\"Protocol\":\"udp\",\"Remove\":true\x7d",
    jsonMessage LxGnsMessagePortMappingRequest
      "\x7b\"Port\":8080,\"Protocol\":\"tcp\",\"Remove\":false\x7d",
    jsonMessage LxGnsMessageSetPortListener "\x7b\"Family\":2,\"Port\":22\x7d"]

theorem anchors_exact_iff_mixed :
    (PortmapExact (requests mixedMessages)
          (rulesAfter pfShell ((dispatchAll {} mixedMessages).run (shellEnvironment pfShell) []).2) ∧
        ListenersAllowed (requests mixedMessages)
          (rulesAfter pfShell ((dispatchAll {} mixedMessages).run (shellEnvironment pfShell) []).2)) ↔
      OnlyLastAdded (requests mixedMessages) ∧ OneListener (requests mixedMessages) :=
  anchors_exact_iff pfShell _ (runsOn_shellEnvironment pfShell) {} mixedMessages
    (by decide) (by decide)

/-- Two mappings that are added one after the other. -/
def twoAdds : List Bytes :=
  [jsonMessage LxGnsMessagePortMappingRequest
      "\x7b\"Port\":80,\"Protocol\":\"tcp\",\"Remove\":false\x7d",
    jsonMessage LxGnsMessagePortMappingRequest
      "\x7b\"Port\":81,\"Protocol\":\"tcp\",\"Remove\":false\x7d"]

/-- The anchors do not hold the right rules after every run: the second of two mappings takes the
place of the first. -/
theorem anchors_not_exact :
    ¬ ∀ (shell : PfShell) (env : Program.Environment Op Op.Answer), RunsOn shell env →
      ∀ (g : Globals) (msgs : List Bytes), (∀ msg ∈ msgs, IsPfMessage msg) →
        AllSucceed ((dispatchAll g msgs).run env []).2 →
        PortmapExact (requests msgs) (rulesAfter shell ((dispatchAll g msgs).run env []).2) ∧
          ListenersAllowed (requests msgs) (rulesAfter shell ((dispatchAll g msgs).run env []).2) := by
  intro h
  have hexact := (h pfShell _ (runsOn_shellEnvironment pfShell) {} twoAdds (by decide)
    (by decide)).1
  have hfirst := hexact (ascii "tcp") 80 (by decide)
  revert hfirst
  decide

end WslFreeBSD.Gns
