import WslFreeBSD.Lib.CText
import WslFreeBSD.Lib.Systems
import WslFreeBSD.Reference.ExecCommandLine

/-!
# The net filter of an interface

`LxGnsMessageInterfaceNetFilter` of `GnsEngine.cpp`. A Create request adds masquerade rules for the
interface to the chain `WSLPOSTROUTING`, for both families and both protocols. A rule can only be deleted
through its handle, so a Remove request lists the chain, looks for the rules of the interface in the
listing and deletes them by their handles.

The listing comes from `UtilExecCommandLine`, which keeps the first line of it, and no rule is named there.
So a Remove request leaves every rule where it is (`removeRules_spec`), and no rule of an interface is
left behind it exactly if there was none to delete (`noRules_serve_iff`).
-/

namespace WslFreeBSD.Reference.NetFilter

open Lib

/-! ## Requests -/

/-- The name of an interface, of the characters that stand for themselves in a command line and in a rule
of `nft`. -/
structure InterfaceName where
  text : Bytes
  plain : ∀ c ∈ text, (isAlnum c || c = 45 || c = 46 || c = 95) = true
  deriving DecidableEq

inductive OperationType where
  | create
  | update
  | remove
  deriving DecidableEq, Repr

/-- `InterfaceNetFilterRequest`, with the name of the interface that was opened for it. -/
structure InterfaceNetFilterRequest where
  interface : InterfaceName
  operation : OperationType
  ephemeralPortRangeStart : UInt16 := 0
  ephemeralPortRangeEnd : UInt16 := 0
  deriving DecidableEq

def c_ipStrings : List Bytes := [ascii "ip", ascii "ip6"]

def protocols : List Bytes := [ascii "udp", ascii "tcp"]

/-! ## Commands -/

def addRuleCommand (request : InterfaceNetFilterRequest) (ip protocol : Bytes) : Bytes :=
  ascii "nft add rule " ++ ip ++ ascii " nat WSLPOSTROUTING oif " ++ request.interface.text ++ ascii " " ++
    protocol ++ ascii " sport 1-65535 mark != 0x1 counter masquerade to :" ++
    decimal request.ephemeralPortRangeStart.toNat ++ ascii "-" ++ decimal request.ephemeralPortRangeEnd.toNat

def listChainCommand (ip : Bytes) : Bytes := ascii "nft -a list chain " ++ ip ++ ascii " nat WSLPOSTROUTING"

def deleteRuleCommand (ip : Bytes) (handle : Nat) : Bytes :=
  ascii "nft delete rule " ++ ip ++ ascii " nat WSLPOSTROUTING handle " ++ decimal handle

/-! ## The rules in a listing -/

def literal : Bytes → Bytes → Option Bytes
  | [], text => some text
  | _ :: _, [] => none
  | p :: pattern, c :: text => if p = c then literal pattern text else none

/-- The name in the pattern, where a dot is any character but the end of a line. -/
def nameInPattern : Bytes → Bytes → Option Bytes
  | [], text => some text
  | _ :: _, [] => none
  | p :: pattern, c :: text =>
    if (p = 46 ∧ c ≠ 10 ∧ c ≠ 13) ∨ p = c then nameInPattern pattern text else none

/-- `\s+`; what follows in the pattern never starts with a blank. -/
def blanks (text : Bytes) : Option Bytes :=
  if text.takeWhile isSpace = [] then none else some (text.dropWhile isSpace)

/-- `(\d+)`, with what is behind it. -/
def digits (text : Bytes) : Option (Bytes × Bytes) :=
  if text.takeWhile isDecDigit = [] then none
  else some (text.takeWhile isDecDigit, text.dropWhile isDecDigit)

/-- `.*handle\s+(\d+)`: the last handle on the line. -/
def lastHandle : Bytes → Option (Bytes × Bytes)
  | [] => none
  | c :: text =>
    let later := if c = 10 ∨ c = 13 then none else lastHandle text
    later <|> (literal (ascii "handle") (c :: text) >>= blanks >>= digits)

/-- `oif\s+"NAME"\s+.*handle\s+(\d+)` at the start of a text: the handle, and what is behind it. -/
def matchRule (interface : InterfaceName) (text : Bytes) : Option (Bytes × Bytes) :=
  literal (ascii "oif") text >>= blanks >>= literal (ascii "\"") >>= nameInPattern interface.text >>=
    literal (ascii "\"") >>= blanks >>= lastHandle

/-- The loop over `regex_search`: the next search starts behind a match, after `skip` more characters. -/
def searchRules (interface : InterfaceName) : (skip : Nat) → Bytes → List Bytes
  | _, [] => []
  | skip + 1, _ :: text => searchRules interface skip text
  | 0, c :: text =>
    match matchRule interface (c :: text) with
    | none => searchRules interface 0 text
    | some (handle, suffix) => handle :: searchRules interface (text.length - suffix.length) text

/-- `std::stoi`, which throws where the number is no `int`. -/
def stoi (handle : Bytes) : Option Nat :=
  let n := handle.foldl (fun n c => 10 * n + (c.toNat - 48)) 0
  if n < 2 ^ 31 then some n else none

/-- `handleNumbers`, when no number is out of range. -/
def handleNumbers (interface : InterfaceName) (listOutputString : Bytes) : Option (List Nat) :=
  (searchRules interface 0 listOutputString).mapM stoi

/-! ## The handler -/

/-- What the handler throws. -/
inductive Exception where
  | lastError
  | outOfRange
  | unexpectedOperation (operation : OperationType)
  deriving DecidableEq, Repr

/-- A handler hands its command lines to `popen`. -/
abbrev Handler := Action Bytes (fun _ => Option CommandRun) Exception Empty Unit

/-- `THROW_LAST_ERROR_IF(UtilExecCommandLine(commandLine.c_str()) < 0)`. -/
def runCommand (commandLine : Bytes) : Handler Unit :=
  Action.call commandLine >>= fun pipe =>
    if (execCommandLine pipe none 0).1 < 0 then Action.throw .lastError else pure ()

def createRules (request : InterfaceNetFilterRequest) : Handler Unit :=
  c_ipStrings.forM fun ip => protocols.forM fun protocol => runCommand (addRuleCommand request ip protocol)

def deleteRules (ip : Bytes) : Option (List Nat) → Handler Unit
  | none => Action.throw .outOfRange
  | some handleNumbers => handleNumbers.forM fun handle => runCommand (deleteRuleCommand ip handle)

def removeRules (interface : InterfaceName) : Handler Unit :=
  c_ipStrings.forM fun ip =>
    Action.call (listChainCommand ip) >>= fun pipe =>
      let (result, listOutputString) := execCommandLine pipe (some []) 0
      if result < 0 then Action.throw .lastError
      else deleteRules ip (handleNumbers interface (listOutputString.getD []))

/-- The case `LxGnsMessageInterfaceNetFilter` of `ProcessNextMessage`. -/
def interfaceNetFilter (request : InterfaceNetFilterRequest) : Handler Unit :=
  match request.operation with
  | .create => createRules request
  | .remove => removeRules request.interface
  | .update => Action.throw (.unexpectedOperation .update)

/-! ## Systems with `nft` -/

/-- The command was started and exited with 0 behind its output. -/
def accepted : Option CommandRun → Bool
  | none => false
  | some run => run.status run.output.length = some (.exited 0)

/-- A system with `nft`: what a command line does, and the handles of the masquerade rules for an interface
in the chain of a family. -/
structure Nft (σ : Type) where
  run : Bytes → σ → Option CommandRun × σ
  snatRules : σ → (ip : Bytes) → InterfaceName → List Nat

/-- The first line of a listing; with `-a` there can be a comment with the handle of the table. -/
inductive TableLine (ip : Bytes) : Bytes → Prop where
  | plain : TableLine ip (ascii "table " ++ ip ++ ascii " nat \x7b")
  | handle (n : UInt64) : TableLine ip (ascii "table " ++ ip ++ ascii " nat \x7b # handle " ++ decimal n.toNat)

/-- What is known of `nft`. A listing changes nothing and starts with the line of the table, unless there is
none. A rule that is accepted is appended to its chain, one that is not changes no chain. Nothing is asked of
`nft delete`. -/
structure Nft.Semantics {σ : Type} (nft : Nft σ) : Prop where
  list_state : ∀ ip ∈ c_ipStrings, ∀ s, (nft.run (listChainCommand ip) s).2 = s
  list_output : ∀ ip ∈ c_ipStrings, ∀ s run, (nft.run (listChainCommand ip) s).1 = some run →
    run.output = [] ∨ ∃ line rest, TableLine ip line ∧ run.output = line ++ 10 :: rest
  add_accepted : ∀ request, ∀ ip ∈ c_ipStrings, ∀ protocol ∈ protocols, ∀ s,
    accepted (nft.run (addRuleCommand request ip protocol) s).1 = true →
      ∃ handle, nft.snatRules (nft.run (addRuleCommand request ip protocol) s).2 ip request.interface =
        nft.snatRules s ip request.interface ++ [handle]
  add_rejected : ∀ request, ∀ ip ∈ c_ipStrings, ∀ protocol ∈ protocols, ∀ s,
    accepted (nft.run (addRuleCommand request ip protocol) s).1 = false →
      nft.snatRules (nft.run (addRuleCommand request ip protocol) s).2 = nft.snatRules s
  add_other : ∀ request, ∀ ip ∈ c_ipStrings, ∀ protocol ∈ protocols, ∀ s ip' interface,
    (ip', interface) ≠ (ip, request.interface) →
      nft.snatRules (nft.run (addRuleCommand request ip protocol) s).2 ip' interface =
        nft.snatRules s ip' interface

/-- What is left of the system by one request; what the handler throws is caught by `GnsEngine::run`. -/
def serveOne {σ : Type} (nft : Nft σ) (s : σ) (request : InterfaceNetFilterRequest) : σ :=
  ((interfaceNetFilter request ()).interpret nft.run s).2

def serve {σ : Type} (nft : Nft σ) (requests : List InterfaceNetFilterRequest) (s : σ) : σ :=
  requests.foldl (serveOne nft) s

/-- No chain has a masquerade rule for the interface. -/
def NoRules {σ : Type} (nft : Nft σ) (interface : InterfaceName) (s : σ) : Prop :=
  ∀ ip ∈ c_ipStrings, nft.snatRules s ip interface = []

/-- A Create request of which the first rule is accepted. -/
def AddsRule {σ : Type} (nft : Nft σ) (request : InterfaceNetFilterRequest) (s : σ) : Prop :=
  request.operation = .create ∧
    accepted (nft.run (addRuleCommand request (ascii "ip") (ascii "udp")) s).1 = true

/-! ## Listings -/

theorem searchRules_of_not_mem (interface : InterfaceName) {text : Bytes} (h : 111 ∉ text) :
    searchRules interface 0 text = [] := by
  induction text with
  | nil => rfl
  | cons c text ih =>
    obtain ⟨hc, htext⟩ := not_or.mp (mt List.mem_cons.mpr h)
    have hmatch : matchRule interface (c :: text) = none := by
      have hliteral : literal (ascii "oif") (c :: text) = none := if_neg hc
      rw [matchRule, hliteral]
      rfl
    rw [searchRules, hmatch]
    exact ih htext

theorem not_mem_decimal {n : Nat} {b : UInt8} (hb : isDecDigit b = false) : b ∉ decimal n := by
  intro hmem
  rw [isDecDigit_of_mem_decimal hmem] at hb
  cases hb

/-- The line of the table is short and free of line breaks, of zero bytes and of an `o`. -/
theorem TableLine.shape {ip line : Bytes} (hip : ip ∈ c_ipStrings) (h : TableLine ip line) :
    line.length < 1023 ∧ ∀ b ∈ [0, 10, 111], b ∉ line := by
  have hplain : ∀ ip ∈ c_ipStrings, (ascii "table " ++ ip ++ ascii " nat \x7b").length < 1023 ∧
      ∀ b ∈ [0, 10, 111], b ∉ ascii "table " ++ ip ++ ascii " nat \x7b" := by decide
  have hhead : ∀ ip ∈ c_ipStrings, (ascii "table " ++ ip ++ ascii " nat \x7b # handle ").length < 1000 ∧
      ∀ b ∈ [0, 10, 111], b ∉ ascii "table " ++ ip ++ ascii " nat \x7b # handle " := by decide
  cases h with
  | plain => exact hplain ip hip
  | handle n =>
    obtain ⟨hlength, hfree⟩ := hhead ip hip
    have hdigits : (decimal n.toNat).length ≤ 20 :=
      length_decimal_le (by decide) (Nat.lt_trans n.toNat_lt (by decide))
    refine ⟨by rw [List.length_append]; omega, fun b hb hmem => ?_⟩
    rcases List.mem_append.mp hmem with hmem | hmem
    · exact hfree b hb hmem
    · have hnone : ∀ b ∈ [0, 10, 111], isDecDigit b = false := by decide
      exact not_mem_decimal (hnone b hb) hmem

theorem handleNumbers_listing {ip : Bytes} (hip : ip ∈ c_ipStrings) {run : CommandRun}
    (h : run.output = [] ∨ ∃ line rest, TableLine ip line ∧ run.output = line ++ 10 :: rest)
    (interface : InterfaceName) :
    handleNumbers interface ((execCommandLine (some run) (some []) 0).2.getD []) = some [] := by
  have hfree : 111 ∉ cString (firstRead run.output) 0 := by
    rcases h with hnil | ⟨line, rest, hline, houtput⟩
    · rw [hnil]
      exact List.not_mem_nil
    · obtain ⟨hlength, hshape⟩ := hline.shape hip
      have hbreak : 10 ∉ line := hshape 10 (by decide)
      have ho : 111 ∉ line := hshape 111 (by decide)
      rw [houtput, firstRead_line hbreak hlength]
      intro hmem
      rcases List.mem_append.mp ((List.takeWhile_subset _) hmem) with hmem | hmem
      · exact ho hmem
      · revert hmem
        decide
  rw [execCommandLine_captured, List.nil_append, Option.getD_some, handleNumbers,
    searchRules_of_not_mem interface hfree]
  rfl

-- in the whole listing the rules of the interface are found
example : handleNumbers ⟨ascii "eth0", by decide⟩
    (ascii "table ip nat \x7b\n\tchain WSLPOSTROUTING \x7b\n" ++
      ascii "\t\toif \"eth0\" udp masquerade to :1-9 # handle 2\n" ++
      ascii "\t\toif \"eth1\" udp masquerade to :1-9 # handle 3\n" ++
      ascii "\t\toif \"eth0\" tcp masquerade to :1-9 # handle 4\n\t\x7d\n\x7d\n") = some [2, 4] := by
  decide +kernel

/-! ## Commands that are run -/

theorem execCommandLine_lt_zero_iff (pipe : Option CommandRun) :
    (execCommandLine pipe none 0).1 < 0 ↔ accepted pipe = false := by
  cases pipe with
  | none => simp [execCommandLine, accepted]
  | some run =>
    rw [execCommandLine_stdout]
    cases hstatus : run.status run.output.length with
    | none => simp [accepted, hstatus]
    | some status =>
      cases status with
      | exited code =>
        by_cases hcode : code = 0
        · simp [accepted, hstatus, processChildExitCode, hcode]
        · have hnat : code.toNat ≠ 0 := fun h => hcode (UInt8.toNat_inj.mp h)
          simp [accepted, hstatus, processChildExitCode, hcode, hnat]
      | signaled signal => simp [accepted, hstatus, processChildExitCode]

section Handlers

variable {σ : Type} {nft : Nft σ}

theorem runCommand_spec (commandLine : Bytes) (s : σ) :
    Action.On nft.run (fun _ w => w = s) (runCommand commandLine)
      (fun _ _ w => w = (nft.run commandLine s).2 ∧ accepted (nft.run commandLine s).1 = true)
      (fun _ _ w => w = (nft.run commandLine s).2 ∧ accepted (nft.run commandLine s).1 = false)
      fun _ _ _ => False := by
  refine Action.On.bind (V := fun pipe _ w => pipe = (nft.run commandLine s).1 ∧ w = (nft.run commandLine s).2)
    (Action.on_call ?_) fun pipe => Action.On.ite (fun hresult => ?_) fun hresult => ?_
  · rintro - w rfl
    exact ⟨rfl, rfl⟩
  · refine Action.on_throw fun _ w hw => ⟨hw.2, ?_⟩
    rwa [← hw.1, ← execCommandLine_lt_zero_iff]
  · refine Action.on_pure fun _ w hw => ⟨hw.2, ?_⟩
    rwa [← hw.1, ← Bool.not_eq_false, ← execCommandLine_lt_zero_iff]

theorem runCommand_keeps {commandLine : Bytes} {Q : σ → Prop} (h : ∀ s, Q s → Q (nft.run commandLine s).2) :
    Action.On nft.run (fun _ => Q) (runCommand commandLine) (fun _ _ => Q) (fun _ _ => Q) fun _ _ => Q := by
  intro u s hs
  refine Action.On.mono (runCommand_spec commandLine s) (fun _ _ h => h) ?_ ?_
    (fun x => x.elim) u s rfl
  · rintro - - w ⟨rfl, -⟩
    exact h s hs
  · rintro - - w ⟨rfl, -⟩
    exact h s hs

theorem createRules_keeps {request : InterfaceNetFilterRequest} {Q : σ → Prop}
    (h : ∀ ip ∈ c_ipStrings, ∀ protocol ∈ protocols, ∀ s, Q s →
      Q (nft.run (addRuleCommand request ip protocol) s).2) :
    Action.On nft.run (fun _ => Q) (createRules request) (fun _ _ => Q) (fun _ _ => Q) fun _ _ => Q :=
  Action.On.forM fun ip hip => Action.On.forM fun protocol hprotocol =>
    runCommand_keeps (h ip hip protocol hprotocol)

theorem removeRules_spec (hnft : nft.Semantics) (interface : InterfaceName) (s : σ) :
    Action.On nft.run (fun _ w => w = s) (removeRules interface) (fun _ _ w => w = s) (fun _ _ w => w = s)
      fun _ _ w => w = s := by
  refine Action.On.forM fun ip hip => ?_
  refine Action.On.bind
    (V := fun pipe _ w => pipe = (nft.run (listChainCommand ip) s).1 ∧ w = s) (Action.on_call ?_) ?_
  · rintro - w rfl
    exact ⟨rfl, hnft.list_state ip hip w⟩
  · rintro pipe
    refine Action.On.ite (fun _ => Action.on_throw fun _ w hw => hw.2) fun hresult => ?_
    rintro u w ⟨hpipe, rfl⟩
    cases pipe with
    | none => exact absurd (by decide) hresult
    | some run =>
      show Action.EndsOn _ _ _ ((deleteRules ip (handleNumbers interface
        ((execCommandLine (some run) (some []) 0).2.getD [])) u).interpret nft.run w)
      rw [handleNumbers_listing hip (hnft.list_output ip hip w run hpipe.symm)]
      exact rfl

theorem serveOne_of_remove (hnft : nft.Semantics) {request : InterfaceNetFilterRequest}
    (h : request.operation = .remove) (s : σ) : serveOne nft s request = s := by
  rw [serveOne, interfaceNetFilter, h]
  exact (removeRules_spec hnft request.interface s).leaves rfl

theorem serveOne_of_update {request : InterfaceNetFilterRequest} (h : request.operation = .update) (s : σ) :
    serveOne nft s request = s := by
  rw [serveOne, interfaceNetFilter, h]
  rfl

theorem serveOne_of_create {request : InterfaceNetFilterRequest} (h : request.operation = .create) (s : σ) :
    serveOne nft s request = ((createRules request ()).interpret nft.run s).2 := by
  rw [serveOne, interfaceNetFilter, h]

theorem noRules_create_other (hnft : nft.Semantics) {request : InterfaceNetFilterRequest}
    (h : request.operation = .create) {interface : InterfaceName} (hother : request.interface ≠ interface)
    (s : σ) :
    NoRules nft interface (serveOne nft s request) ↔ NoRules nft interface s := by
  have hsame : ∀ ip, nft.snatRules (serveOne nft s request) ip interface = nft.snatRules s ip interface := by
    intro ip
    rw [serveOne_of_create h]
    refine (createRules_keeps (Q := fun w => nft.snatRules w ip interface = nft.snatRules s ip interface)
      fun ip' hip' protocol hprotocol w hw => ?_).leaves rfl
    rw [hnft.add_other request ip' hip' protocol hprotocol _ _ _ fun heq => hother (Prod.mk.inj heq).2.symm]
    exact hw
  exact forall₂_congr fun ip _ => by rw [hsame]

theorem add_keeps_rules (hnft : nft.Semantics) {request : InterfaceNetFilterRequest} {ip protocol : Bytes}
    (hip : ip ∈ c_ipStrings) (hprotocol : protocol ∈ protocols) {s : σ} {ip' : Bytes}
    (h : nft.snatRules s ip' request.interface ≠ []) :
    nft.snatRules (nft.run (addRuleCommand request ip protocol) s).2 ip' request.interface ≠ [] := by
  by_cases hsame : ip' = ip
  · subst hsame
    cases haccepted : accepted (nft.run (addRuleCommand request ip' protocol) s).1 with
    | false =>
      rw [hnft.add_rejected request ip' hip protocol hprotocol _ haccepted]
      exact h
    | true =>
      obtain ⟨handle, hrules⟩ := hnft.add_accepted request ip' hip protocol hprotocol _ haccepted
      rw [hrules]
      exact List.append_ne_nil_of_right_ne_nil _ (List.cons_ne_nil handle [])
  · have hother : (ip', request.interface) ≠ (ip, request.interface) :=
      fun heq => hsame (Prod.mk.inj heq).1
    rw [hnft.add_other request ip hip protocol hprotocol _ _ _ hother]
    exact h

theorem createRules_from {request : InterfaceNetFilterRequest} {P : Unit → σ → Prop} {Q R : σ → Prop}
    (hfirst : Action.On nft.run P (runCommand (addRuleCommand request (ascii "ip") (ascii "udp")))
      (fun _ _ => R) (fun _ _ => Q) fun _ _ => Q)
    (hrest : ∀ ip ∈ c_ipStrings, ∀ protocol ∈ protocols, ∀ s, R s →
      R (nft.run (addRuleCommand request ip protocol) s).2)
    (hQ : ∀ s, R s → Q s) :
    Action.On nft.run P (createRules request) (fun _ _ => Q) (fun _ _ => Q) fun _ _ => Q := by
  have hkeeps (ip : Bytes) (hip : ip ∈ c_ipStrings) (protocol : Bytes) (hprotocol : protocol ∈ protocols) :
      Action.On nft.run (fun _ => R) (runCommand (addRuleCommand request ip protocol)) (fun _ _ => R)
        (fun _ _ => Q) fun _ _ => Q :=
    (runCommand_keeps (hrest ip hip protocol hprotocol)).mono (fun _ _ h => h) (fun _ _ _ h => h)
      (fun _ _ s h => hQ s h) fun _ _ s h => hQ s h
  have hudp : Action.On nft.run P
      (protocols.forM fun protocol => runCommand (addRuleCommand request (ascii "ip") protocol)) (fun _ _ => R)
      (fun _ _ => Q) fun _ _ => Q :=
    hfirst.bind fun _ => Action.On.forM fun protocol hprotocol =>
      hkeeps _ List.mem_cons_self protocol (List.mem_cons_of_mem _ hprotocol)
  have hall : Action.On nft.run P (createRules request) (fun _ _ => R) (fun _ _ => Q) fun _ _ => Q :=
    hudp.bind fun _ => Action.On.forM fun ip hip => Action.On.forM fun protocol hprotocol =>
      hkeeps ip (List.mem_cons_of_mem _ hip) protocol hprotocol
  exact hall.post fun _ _ s h => hQ s h

theorem createRules_accepted (hnft : nft.Semantics) {request : InterfaceNetFilterRequest} {s : σ}
    (h : accepted (nft.run (addRuleCommand request (ascii "ip") (ascii "udp")) s).1 = true) :
    Action.On nft.run (fun _ w => w = s) (createRules request)
      (fun _ _ w => nft.snatRules w (ascii "ip") request.interface ≠ [])
      (fun _ _ w => nft.snatRules w (ascii "ip") request.interface ≠ [])
      fun _ _ w => nft.snatRules w (ascii "ip") request.interface ≠ [] := by
  refine createRules_from (R := fun w => nft.snatRules w (ascii "ip") request.interface ≠ [])
    ((runCommand_spec _ s).mono (fun _ _ h => h) ?_ ?_ fun x => x.elim)
    (fun ip hip protocol hprotocol w hw => add_keeps_rules hnft hip hprotocol hw) fun _ h => h
  · rintro - - w ⟨rfl, -⟩
    obtain ⟨handle, hrules⟩ :=
      hnft.add_accepted request _ List.mem_cons_self _ List.mem_cons_self _ h
    rw [hrules]
    exact List.append_ne_nil_of_right_ne_nil _ (List.cons_ne_nil handle [])
  · rintro - - w ⟨-, hrejected⟩
    rw [h] at hrejected
    cases hrejected

theorem createRules_rejected (hnft : nft.Semantics) {request : InterfaceNetFilterRequest} {s : σ}
    (h : accepted (nft.run (addRuleCommand request (ascii "ip") (ascii "udp")) s).1 = false) :
    Action.On nft.run (fun _ w => w = s) (createRules request) (fun _ _ w => nft.snatRules w = nft.snatRules s)
      (fun _ _ w => nft.snatRules w = nft.snatRules s) fun _ _ w => nft.snatRules w = nft.snatRules s := by
  refine createRules_from (R := fun _ => False)
    ((runCommand_spec _ s).mono (fun _ _ h => h) ?_ ?_ fun x => x.elim) (fun _ _ _ _ _ hw => hw)
    fun _ h => h.elim
  · rintro - - w ⟨-, hok⟩
    rw [h] at hok
    cases hok
  · rintro - - w ⟨rfl, -⟩
    exact hnft.add_rejected request _ List.mem_cons_self _ List.mem_cons_self _ h

theorem noRules_create (hnft : nft.Semantics) {request : InterfaceNetFilterRequest}
    (h : request.operation = .create) (s : σ) :
    NoRules nft request.interface (serveOne nft s request) ↔
      NoRules nft request.interface s ∧ ¬ AddsRule nft request s := by
  rw [serveOne_of_create h]
  cases haccepted : accepted (nft.run (addRuleCommand request (ascii "ip") (ascii "udp")) s).1 with
  | true =>
    refine ⟨fun hnone => ?_, fun hnone => absurd ⟨h, haccepted⟩ hnone.2⟩
    exact absurd (hnone _ List.mem_cons_self) ((createRules_accepted hnft haccepted).leaves rfl)
  | false =>
    have hsame := (createRules_rejected hnft haccepted).leaves (s := ()) rfl
    rw [NoRules, hsame]
    refine ⟨fun hnone => ⟨hnone, fun hadds => ?_⟩, fun hnone => hnone.1⟩
    rw [hadds.2] at haccepted
    cases haccepted

/-- One request: only a Create request for the interface, with a rule that is accepted, changes whether it
has rules. -/
theorem noRules_serveOne_iff (hnft : nft.Semantics) (interface : InterfaceName)
    (request : InterfaceNetFilterRequest) (s : σ) :
    NoRules nft interface (serveOne nft s request) ↔
      NoRules nft interface s ∧ ¬ (request.interface = interface ∧ AddsRule nft request s) := by
  cases hoperation : request.operation with
  | create =>
    by_cases hinterface : request.interface = interface
    · subst hinterface
      rw [noRules_create hnft hoperation]
      exact and_congr_right' (not_congr ⟨fun h => ⟨rfl, h⟩, fun h => h.2⟩)
    · rw [noRules_create_other hnft hoperation hinterface]
      exact ⟨fun h => ⟨h, fun hadds => hinterface hadds.1⟩, fun h => h.1⟩
  | update =>
    rw [serveOne_of_update hoperation]
    refine ⟨fun h => ⟨h, fun hadds => ?_⟩, fun h => h.1⟩
    exact absurd (hoperation.symm.trans hadds.2.1) (by decide)
  | remove =>
    rw [serveOne_of_remove hnft hoperation]
    refine ⟨fun h => ⟨h, fun hadds => ?_⟩, fun h => h.1⟩
    exact absurd (hoperation.symm.trans hadds.2.1) (by decide)

theorem noRules_serve_iff (hnft : nft.Semantics) (interface : InterfaceName)
    (requests : List InterfaceNetFilterRequest) (s : σ) :
    NoRules nft interface (serve nft requests s) ↔
      NoRules nft interface s ∧ ∀ before request after, requests = before ++ request :: after →
        ¬ (request.interface = interface ∧ AddsRule nft request (serve nft before s)) := by
  induction requests generalizing s with
  | nil =>
    refine ⟨fun h => ⟨h, fun before request after heq => ?_⟩, fun h => h.1⟩
    exact absurd heq.symm (by simp)
  | cons first requests ih =>
    have hserve : serve nft (first :: requests) s = serve nft requests (serveOne nft s first) := rfl
    rw [hserve, ih, noRules_serveOne_iff hnft, and_assoc]
    refine and_congr_right' ⟨?_, ?_⟩
    · rintro ⟨hfirst, hrest⟩ before request after heq
      cases before with
      | nil =>
        obtain ⟨rfl, -⟩ := List.cons.inj heq
        exact hfirst
      | cons head before =>
        obtain ⟨rfl, hrequests⟩ := List.cons.inj heq
        exact hrest before request after hrequests
    · intro hall
      refine ⟨hall [] first requests rfl, fun before request after heq => ?_⟩
      exact hall (first :: before) request after (by rw [heq]; rfl)

end Handlers

/-! ## A system -/

/-- A rule in the chain of a family: what is behind the name of the interface is kept as it was given. -/
structure SnatRule where
  ip : Bytes
  interface : Bytes
  text : Bytes
  handle : Nat
  deriving DecidableEq, Repr

/-- What `nft -a list chain` prints. -/
def listing (ip : Bytes) (rules : List SnatRule) : Bytes :=
  ascii "table " ++ ip ++ ascii " nat \x7b" ++ 10 :: (ascii "\tchain WSLPOSTROUTING \x7b # handle 1\n" ++
    (rules.filter fun rule => rule.ip = ip).flatMap (fun rule => ascii "\t\toif \"" ++ rule.interface ++
      ascii "\"" ++ rule.text ++ ascii " # handle " ++ decimal rule.handle ++ [10]) ++ ascii "\t\x7d\n\x7d\n")

def word (text : Bytes) : Bytes := text.takeWhile (· ≠ 32)

/-- The arguments of `nft add rule`: family, interface and the rest. -/
def readAddRule (text : Bytes) : Option (Bytes × Bytes × Bytes) := do
  let args ← literal (ascii "nft add rule ") text
  let ip := word args
  let more ← literal (ascii " nat WSLPOSTROUTING oif ") (args.drop ip.length)
  let interface := word more
  some (ip, interface, more.drop interface.length)

/-- The arguments of `nft delete rule`: family and handle. -/
def readDeleteRule (text : Bytes) : Option (Bytes × Nat) := do
  let args ← literal (ascii "nft delete rule ") text
  let ip := word args
  let more ← literal (ascii " nat WSLPOSTROUTING handle ") (args.drop ip.length)
  let handle ← stoi more
  some (ip, handle)

def exits (code : UInt8) (output : Bytes) : Option CommandRun := some ⟨output, fun _ => some (.exited code)⟩

def nextHandle (rules : List SnatRule) : Nat := (rules.map (·.handle)).foldl max 1 + 1

/-- The chains of a system on which every rule is accepted. -/
def chains : Nft (List SnatRule) where
  run text rules :=
    match readAddRule text, readDeleteRule text, literal (ascii "nft -a list chain ") text with
    | some (ip, interface, rest), _, _ => (exits 0 [], rules ++ [⟨ip, interface, rest, nextHandle rules⟩])
    | none, some (ip, handle), _ =>
      (exits 0 [], rules.filter fun rule => ¬ (rule.ip = ip ∧ rule.handle = handle))
    | none, none, some args => (exits 0 (listing (word args) rules), rules)
    | none, none, none => (exits 127 [], rules)
  snatRules rules ip interface :=
    (rules.filter fun rule => rule.ip = ip ∧ rule.interface = interface.text).map (·.handle)

theorem literal_append (pattern text : Bytes) : literal pattern (pattern ++ text) = some text := by
  induction pattern with
  | nil => cases text <;> rfl
  | cons p pattern ih => exact (if_pos rfl).trans ih

theorem word_append {w : Bytes} (h : 32 ∉ w) (text : Bytes) : word (w ++ 32 :: text) = w := by
  have hall : ∀ b ∈ w, decide (b ≠ 32) = true := fun b hb => decide_eq_true (ne_of_mem_of_not_mem hb h)
  rw [word, List.takeWhile_append_of_pos hall]
  exact List.append_nil w

theorem blank_not_mem (interface : InterfaceName) : 32 ∉ interface.text := by
  intro hmem
  have hplain := interface.plain 32 hmem
  revert hplain
  decide

theorem addRuleCommand_words (request : InterfaceNetFilterRequest) (ip protocol : Bytes) :
    ∃ rest, addRuleCommand request ip protocol =
      ascii "nft add rule " ++ (ip ++ (ascii " nat WSLPOSTROUTING oif " ++
        (request.interface.text ++ 32 :: rest))) := by
  have hspace : ascii " " = [32] := by decide
  refine ⟨protocol ++ ascii " sport 1-65535 mark != 0x1 counter masquerade to :" ++
    decimal request.ephemeralPortRangeStart.toNat ++ ascii "-" ++
    decimal request.ephemeralPortRangeEnd.toNat, ?_⟩
  simp only [addRuleCommand, hspace, List.append_assoc, List.cons_append, List.nil_append]

theorem readAddRule_addRuleCommand (request : InterfaceNetFilterRequest) {ip : Bytes}
    (hip : ip ∈ c_ipStrings) (protocol : Bytes) :
    ∃ rest, readAddRule (addRuleCommand request ip protocol) = some (ip, request.interface.text, rest) := by
  have hblank : ∀ ip ∈ c_ipStrings, 32 ∉ ip := by decide
  have hnat : ascii " nat WSLPOSTROUTING oif " = 32 :: ascii "nat WSLPOSTROUTING oif " := by decide
  obtain ⟨rest, hcommand⟩ := addRuleCommand_words request ip protocol
  refine ⟨32 :: rest, ?_⟩
  have hword (more : Bytes) : word (ip ++ (ascii " nat WSLPOSTROUTING oif " ++ more)) = ip := by
    rw [hnat]
    exact word_append (hblank ip hip) _
  rw [hcommand, readAddRule, literal_append]
  simp only [Option.bind_eq_bind, Option.bind_some, hword, List.drop_left, literal_append,
    word_append (blank_not_mem request.interface)]

theorem chains_add (request : InterfaceNetFilterRequest) {ip : Bytes} (hip : ip ∈ c_ipStrings)
    (protocol : Bytes) (rules : List SnatRule) :
    ∃ rest, chains.run (addRuleCommand request ip protocol) rules =
      (exits 0 [], rules ++ [⟨ip, request.interface.text, rest, nextHandle rules⟩]) := by
  obtain ⟨rest, hread⟩ := readAddRule_addRuleCommand request hip protocol
  refine ⟨rest, ?_⟩
  simp only [chains, hread]

theorem chains_list {ip : Bytes} (hip : ip ∈ c_ipStrings) (rules : List SnatRule) :
    chains.run (listChainCommand ip) rules = (exits 0 (listing ip rules), rules) := by
  have hread : ∀ ip ∈ c_ipStrings, readAddRule (listChainCommand ip) = none ∧
      readDeleteRule (listChainCommand ip) = none ∧
      (literal (ascii "nft -a list chain ") (listChainCommand ip)).map word = some ip := by decide
  obtain ⟨hadd, hdelete, hlist⟩ := hread ip hip
  obtain ⟨args, hargs, hword⟩ := Option.map_eq_some_iff.mp hlist
  simp only [chains, hadd, hdelete, hargs, hword]

theorem chains_semantics : chains.Semantics where
  list_state ip hip rules := congrArg Prod.snd (chains_list hip rules)
  list_output := by
    intro ip hip rules run hrun
    rw [chains_list hip] at hrun
    obtain rfl := Option.some.inj hrun
    exact Or.inr ⟨_, _, .plain, rfl⟩
  add_accepted := by
    intro request ip hip protocol _ rules _
    obtain ⟨rest, hadd⟩ := chains_add request hip protocol rules
    refine ⟨nextHandle rules, ?_⟩
    rw [hadd]
    simp [chains]
  add_rejected := by
    intro request ip hip protocol _ rules hrejected
    obtain ⟨rest, hadd⟩ := chains_add request hip protocol rules
    rw [hadd] at hrejected
    cases hrejected
  add_other := by
    intro request ip hip protocol _ rules ip' interface hother
    obtain ⟨rest, hadd⟩ := chains_add request hip protocol rules
    rw [hadd]
    have hne : ¬ (ip = ip' ∧ request.interface.text = interface.text) := by
      rintro ⟨rfl, htext⟩
      obtain ⟨text, hplain⟩ := interface
      subst htext
      exact hother rfl
    simp [chains, hne]

theorem eth0_plain : ∀ c ∈ ascii "eth0", (isAlnum c || c = 45 || c = 46 || c = 95) = true := by decide

def eth0 : InterfaceName := ⟨ascii "eth0", eth0_plain⟩

def eth0Request (operation : OperationType) : InterfaceNetFilterRequest := ⟨eth0, operation, 60000, 60099⟩

/-! ## Captured outputs and removed rules -/

/-- A command that exits as expected has its output captured completely exactly if the output has at most
1023 bytes and a line break at most at its end. A Remove request leaves no rule of its interface exactly if
there was none at first and no Create request before it added one. -/
theorem output_complete_and_rules_removed_iff {run : CommandRun} {code : UInt8} (hnul : 0 ∉ run.output)
    (hexit : run.status run.output.length = some (.exited code)) (output : Bytes) {σ : Type} {nft : Nft σ}
    (hnft : nft.Semantics) {request : InterfaceNetFilterRequest} (hremove : request.operation = .remove)
    (requests : List InterfaceNetFilterRequest) (s : σ) :
    (execCommandLine (some run) (some output) code.toNat = (0, some (output ++ run.output)) ↔
        run.output.length ≤ 1023 ∧ 10 ∉ run.output.dropLast) ∧
      (NoRules nft request.interface (serve nft (requests ++ [request]) s) ↔
        NoRules nft request.interface s ∧ ∀ before earlier after, requests = before ++ earlier :: after →
          ¬ (earlier.interface = request.interface ∧ AddsRule nft earlier (serve nft before s))) := by
  refine ⟨execCommandLine_complete_iff hnul hexit output, ?_⟩
  have hserve : serve nft (requests ++ [request]) s = serveOne nft (serve nft requests s) request := by
    rw [serve, List.foldl_append]
    rfl
  rw [hserve, serveOne_of_remove hnft hremove]
  exact noRules_serve_iff hnft request.interface requests s

/-- The first line of a listing alone, as the output of a command that exits with 0. -/
def firstLine : CommandRun := ⟨ascii "table ip nat \x7b\n", fun _ => some (.exited 0)⟩

theorem firstLine_terminated : 0 ∉ firstLine.output := by decide

theorem output_complete_and_rules_removed_eth0 :
    execCommandLine (some firstLine) (some []) 0 = (0, some firstLine.output) ∧
      NoRules chains eth0 (serve chains [eth0Request .remove] []) ∧
      ¬ NoRules chains eth0 (serve chains ([eth0Request .create] ++ [eth0Request .remove]) []) := by
  have hboth (requests : List InterfaceNetFilterRequest) :=
    @output_complete_and_rules_removed_iff firstLine 0 firstLine_terminated rfl [] (List SnatRule) chains
      chains_semantics (eth0Request .remove) rfl requests []
  refine ⟨(hboth []).1.mpr (by decide), ?_, fun hnone => ?_⟩
  · refine (hboth []).2.mpr ⟨fun ip hip => rfl, fun before earlier after h => ?_⟩
    exact absurd h (by simp)
  · have hadds := ((hboth [eth0Request .create]).2.mp hnone).2 [] (eth0Request .create) [] rfl
    exact hadds ⟨rfl, rfl, by decide⟩

/-- The listing of a chain without rules has four lines, the first is captured. -/
theorem output_not_complete_listing :
    ¬ ∀ (run : CommandRun) (code : UInt8) (output : Bytes), 0 ∉ run.output →
      run.status run.output.length = some (.exited code) →
        execCommandLine (some run) (some output) code.toNat = (0, some (output ++ run.output)) := by
  intro h
  have hlisting := h ⟨listing (ascii "ip") [], fun _ => some (.exited 0)⟩ 0 [] (by decide) rfl
  revert hlisting
  decide

end WslFreeBSD.Reference.NetFilter
