import WslFreeBSD.Hvinit.Main

/-!
# One host name

The host name is chosen twice, by `network_apply_hostname` for the system and `/etc/hostname` and
by `network_generate_hosts` for `/etc/hosts`; only the first one looks at `[network] hostname`.
`hosts_name_iff` says for which `Initialize` messages and which `/etc/wsl.conf` both names are
the same.
-/

namespace WslFreeBSD.Hvinit

open Lib Protocol Config

/-! ## Names -/

theorem networkCleanHostname_default :
    networkCleanHostname (some NETC_DEFAULT_HOSTNAME) = NETC_DEFAULT_HOSTNAME := by decide

theorem nonEmpty_eq_some {s : Option Bytes} {text : Bytes} (h : nonEmpty s = some text) :
    s = some text := (Option.filter_eq_some_iff.mp h).1

theorem networkCleanHostname_of_nonEmpty {s : Option Bytes} (h : nonEmpty s = none) :
    networkCleanHostname s = NETC_DEFAULT_HOSTNAME := by
  match s with
  | none => rfl
  | some [] => rfl
  | some (c :: text) => simp [nonEmpty] at h

/-- Without `[network] hostname` the name of the system is the name from the host. -/
theorem networkCleanHostname_raw {hostname confHostname : Option Bytes}
    (h : nonEmpty confHostname = none) :
    networkCleanHostname (some (rawHostname hostname confHostname)) = networkCleanHostname hostname := by
  unfold rawHostname
  rw [h, Option.none_or]
  cases hname : nonEmpty hostname with
  | none => rw [Option.getD_none, networkCleanHostname_default, networkCleanHostname_of_nonEmpty hname]
  | some name => rw [Option.getD_some, nonEmpty_eq_some hname]

theorem rawHostname_of_some {hostname confHostname : Option Bytes} {name : Bytes}
    (h : nonEmpty confHostname = some name) : rawHostname hostname confHostname = name := by
  rw [rawHostname, h]
  rfl

theorem hostsFile_injective {x y : Bytes} {domainname windowsHosts : Option Bytes}
    (h : hostsFile x domainname windowsHosts = hostsFile y domainname windowsHosts) : x = y := by
  have hline := List.append_cancel_left (List.append_cancel_right (List.append_cancel_right h))
  have hlen := congrArg List.length hline
  simp only [List.length_append, List.length_singleton] at hlen
  exact (List.append_inj_right' hline (by omega))

/-! ## What is done with the names -/

inductive NameEvent where
  /-- what is found in `/etc/wsl.conf` -/
  | settings (file : FileRead)
  | hostname (name : Bytes) (accepted : Bool)
  | hostnameFile (contents : Bytes)
  | hostsFile (contents : Bytes)
  deriving DecidableEq, Repr

def nameEvent : (Σ e, Op.Answer e) → Option NameEvent
  | ⟨.readFile path, file⟩ => if path = WSL_CONF_FILE then some (.settings file) else none
  | ⟨.sethostname name, accepted⟩ => some (.hostname name accepted)
  | ⟨.writeFile path contents, _⟩ =>
    if path = NETC_HOSTNAME_FILE then some (.hostnameFile contents)
    else if path = NETC_HOSTS_FILE then some (.hostsFile contents)
    else none
  | _ => none

def nameEvents (t : InitTrace) : List NameEvent := t.filterMap nameEvent

theorem Uses.nameless {α : Type} {ss : List Subsystem} {p : InitProgram α} (hp : Uses ss p)
    (hfiles : Subsystem.files ∉ ss) (hnames : Subsystem.names ∉ ss) :
    p.Shows nameEvent fun _ o => o = [] := by
  refine Program.Only.hidden hp fun e r he => ?_
  cases e with
  | readFile path => exact absurd he hfiles
  | writeFile path contents => exact absurd he hfiles
  | sethostname name => exact absurd he hnames
  | _ => rfl

theorem nameless_timezoneApply (timezone : Option Bytes) (autoUpdate : Bool) :
    (timezoneApply timezone autoUpdate).Shows nameEvent fun _ o => o = [] := by
  unfold timezoneApply
  split
  · exact Program.shows_pure rfl
  · refine Program.Shows.ite (fun _ => Program.shows_pure rfl) fun _ => ?_
    refine Program.Shows.after_hidden (Program.shows_perform fun _ => rfl) fun found =>
      Program.Shows.ite (fun _ => ?_) fun _ => Program.shows_pure rfl
    refine Program.Shows.after_hidden (Program.shows_perform fun _ => rfl) fun _ => ?_
    refine Program.Shows.after_hidden (Program.shows_perform fun _ => rfl) fun linked =>
      Program.Shows.ite (fun _ => ?_) fun _ => Program.shows_pure rfl
    have hsetting : ∀ (contents : Bytes) (out : FileWritten),
        nameEvent ⟨.writeFile TZ_SETTING_FILE contents, out⟩ = none := fun _ _ => by
      rw [nameEvent, if_neg (by decide), if_neg (by decide)]
    refine Program.Shows.after_hidden (Program.shows_perform fun out => ?_) fun out => ?_
    · rw [hsetting]
      rfl
    · cases out with
      | notOpened => exact Program.shows_pure rfl
      | notClosed => exact Program.shows_perform fun _ => rfl
      | written => exact Program.shows_perform fun _ => rfl

theorem nameless_networkApplyDomainname (domainname : Option Bytes) :
    (networkApplyDomainname domainname).Shows nameEvent fun _ o => o = [] := by
  unfold networkApplyDomainname
  split
  · exact Program.shows_pure rfl
  · exact Program.shows_perform fun _ => rfl

/-- The name is passed to `sethostname` and, if it is accepted, only written to `/etc/hostname`. -/
theorem shows_networkApplyHostname (hostname confHostname : Option Bytes) :
    (networkApplyHostname hostname confHostname).Shows nameEvent fun _ o => ∃ accepted more,
      o = .hostname (networkCleanHostname (some (rawHostname hostname confHostname))) accepted :: more ∧
      (accepted = true → more = [.hostnameFile
        (networkCleanHostname (some (rawHostname hostname confHostname)) ++ [10])]) := by
  unfold networkApplyHostname
  generalize networkCleanHostname (some (rawHostname hostname confHostname)) = clean
  refine Program.Shows.bind (Program.shows_perform
    (Q := fun accepted o => o = [.hostname clean accepted]) fun _ => rfl) ?_
  rintro accepted o rfl
  cases accepted with
  | true =>
    rw [if_neg (by simp)]
    exact fun _ _ => ⟨true, _, rfl, fun _ => rfl⟩
  | false =>
    refine Program.Ensures.mono (Program.ensures_true _) fun _ t _ => ?_
    exact ⟨false, t.filterMap nameEvent, rfl, fun h => by cases h⟩

def configNames (cfg : WslConfig) : Option Bytes × Option Bytes × Option Bytes :=
  (cfg.hostname, cfg.domainname, cfg.windowsHosts)

/-- The configuration in an `Initialize` message, unless it is too small. -/
def parsedConfig (msg : Bytes) : Option WslConfig :=
  let out := wslConfigParse wslConfigInit (some msg)
  if out.1 = 0 then some out.2 else none

theorem shows_parseInitialize {g : Globals} (msg : Bytes) (hg : g.config = none) :
    (parseInitialize g msg).Shows nameEvent fun g' o =>
      o = [] ∧ g'.wslConf = g.wslConf ∧ g'.config = parsedConfig msg := by
  have hsetenv : ∀ name value, Program.Shows nameEvent
      (Program.perform (Op.setenv name value) : InitProgram Unit) fun _ o => o = [] :=
    fun _ _ => Program.shows_perform fun _ => rfl
  unfold parseInitialize parsedConfig
  refine Program.Shows.ite (fun h => ?_) fun h => ?_
  · rw [if_pos h]
    cases (wslConfigParse wslConfigInit (some msg)).2.distributionName with
    | none => exact Program.Shows.after_hidden (hsetenv _ _) fun _ => Program.shows_pure ⟨rfl, rfl, rfl⟩
    | some name =>
      refine Program.Shows.after_hidden (hsetenv _ _) fun _ => ?_
      exact Program.Shows.after_hidden (hsetenv _ _) fun _ => Program.shows_pure ⟨rfl, rfl, rfl⟩
  · rw [if_neg h]
    exact Program.shows_pure ⟨rfl, rfl, hg⟩

theorem shows_resolveUser (g : Globals) : (resolveUser g).Shows nameEvent fun g' o =>
    o = [] ∧ g'.wslConf = g.wslConf ∧ g'.config.map configNames = g.config.map configNames := by
  unfold resolveUser
  split
  · rename_i user cfg _ hcfg
    refine Program.Shows.after_hidden (Program.shows_perform fun _ => rfl) fun uid => ?_
    cases uid with
    | none => exact Program.shows_pure ⟨rfl, rfl, rfl⟩
    | some uid => exact Program.shows_pure ⟨rfl, rfl, by rw [hcfg]; rfl⟩
  · exact Program.shows_pure ⟨rfl, rfl, rfl⟩

/-- The settings come from the message and from `/etc/wsl.conf`. -/
theorem shows_loadSettings {g : Globals} (msg : Bytes) (hg : g.config = none) (hconf : g.wslConf = none) :
    (loadSettings g msg).Shows nameEvent fun g' o => ∃ file, o = [.settings file] ∧
      g'.wslConf = wslConfOf file ∧
      g'.config.map configNames = (parsedConfig msg).map configNames := by
  refine Program.Shows.bind (shows_parseInitialize msg hg) ?_
  rintro g₁ o ⟨rfl, hconf₁, hconfig₁⟩
  refine Program.Shows.bind (Program.shows_perform
    (Q := fun file o => o = [.settings file]) fun file => ?_) ?_
  · rw [nameEvent, if_pos rfl]
    rfl
  · rintro file o rfl
    cases hfile : wslConfOf file with
    | none =>
      exact Program.shows_pure ⟨file, rfl, (hconf₁.trans hconf).trans hfile.symm, by rw [hconfig₁]⟩
    | some conf =>
      refine Program.Shows.mono (shows_resolveUser _) ?_
      rintro g₂ o ⟨rfl, hconf₂, hconfig₂⟩
      exact ⟨file, rfl, hconf₂.trans hfile.symm, by rw [hconfig₂, ← hconfig₁]⟩

/-! ## The settings are applied -/

/-- The text of `[network] hostname`. -/
def confHostname (conf : Option WslConf) : Option Bytes := conf.bind (confText · .networkHostname)

/-- `[network] generateHosts`. -/
def generatesHosts (conf : Option WslConf) : Bool :=
  (conf.map (confFlag · .networkGenerateHosts)).getD true

/-- What is done with the names of a configuration when the host name is accepted. -/
def namesApplied (conf : Option WslConf) (hostname domainname windowsHosts : Option Bytes) :
    List NameEvent :=
  let clean := networkCleanHostname (some (rawHostname hostname (confHostname conf)))
  [.hostname clean true, .hostnameFile (clean ++ [10])] ++
    if generatesHosts conf then
      [.hostsFile (Hvinit.hostsFile (networkCleanHostname hostname) domainname windowsHosts)]
    else []

theorem shows_networkGenerateHosts (hostname domainname windowsHosts : Option Bytes)
    (generateHosts : Bool) :
    (networkGenerateHosts hostname domainname windowsHosts generateHosts).Shows nameEvent fun _ o =>
      o = if generateHosts then
        [.hostsFile (Hvinit.hostsFile (networkCleanHostname hostname) domainname windowsHosts)] else [] := by
  cases generateHosts with
  | false => exact Program.shows_pure rfl
  | true =>
    refine Program.Shows.before_hidden (Program.shows_perform fun _ => ?_) fun _ =>
      Program.shows_pure rfl
    rw [nameEvent, if_neg (by decide), if_pos rfl]
    rfl

theorem shows_applyNetwork {g : Globals} {cfg : WslConfig} (hg : g.config = some cfg) :
    (applyNetwork g).Shows nameEvent fun _ o => (∀ name, .hostname name false ∉ o) →
      o = namesApplied g.wslConf cfg.hostname cfg.domainname cfg.windowsHosts := by
  unfold applyNetwork
  rw [hg]
  refine Program.Shows.bind (shows_networkApplyHostname _ _) ?_
  rintro _ o ⟨accepted, more, rfl, hmore⟩
  refine Program.Shows.after_hidden (nameless_networkApplyDomainname cfg.domainname) fun _ => ?_
  refine Program.Shows.mono (shows_networkGenerateHosts _ _ _ _) ?_
  rintro _ o rfl hacc
  cases accepted with
  | false => exact absurd List.mem_cons_self (hacc _)
  | true =>
    rw [hmore rfl]
    rfl

def namesOf (conf : Option WslConf) : Option (Option Bytes × Option Bytes × Option Bytes) → List NameEvent
  | none => []
  | some (hostname, domainname, windowsHosts) => namesApplied conf hostname domainname windowsHosts

theorem shows_applySettings (g : Globals) (seq : Nat) :
    (applySettings g seq).Shows nameEvent fun _ o => (∀ name, .hostname name false ∉ o) →
      o = namesOf g.wslConf (g.config.map configNames) := by
  have hnetwork : (applyNetwork g).Shows nameEvent fun _ o => (∀ name, .hostname name false ∉ o) →
      o = namesOf g.wslConf (g.config.map configNames) := by
    cases hg : g.config with
    | none =>
      unfold applyNetwork
      rw [hg]
      exact Program.shows_pure fun _ => rfl
    | some cfg => exact shows_applyNetwork hg
  refine Program.Shows.after_hidden (nameless_timezoneApply _ _) fun _ => ?_
  refine Program.Shows.before_hidden hnetwork fun _ => ?_
  refine Program.Shows.after_hidden ((uses_mountInitial g).nameless (by simp) (by simp)) fun mounted => ?_
  refine Program.Shows.after_hidden ((uses_bootCommand g).nameless (by simp) (by simp)) fun _ => ?_
  refine Program.Shows.after_hidden (Program.shows_perform fun _ => rfl) fun _ => ?_
  refine Program.Shows.after_hidden
    ((uses_plan9StartServer _).nameless (by simp) (by simp)) fun server => ?_
  exact Program.Shows.after_hidden ((uses_send _ _).nameless (by simp) (by simp)) fun _ =>
    Program.shows_pure rfl

theorem shows_handleInitialize {g : Globals} (msg : Bytes) (hg : g.config = none)
    (hconf : g.wslConf = none) : (handleInitialize g msg).Shows nameEvent fun _ o => ∃ file more,
      o = .settings file :: more ∧ ((∀ name, .hostname name false ∉ more) →
        more = namesOf (wslConfOf file) ((parsedConfig msg).map configNames)) := by
  refine Program.Shows.bind (shows_loadSettings msg hg hconf) ?_
  rintro g' o ⟨file, rfl, hconf', hconfig'⟩
  refine Program.Shows.mono (shows_applySettings g' _) ?_
  intro _ more hmore
  rw [hconf', hconfig'] at hmore
  exact ⟨file, more, rfl, hmore⟩

/-! ## Both names -/

theorem nameEvent_eq_some {c : Σ e, Op.Answer e} {d : NameEvent} (h : nameEvent c = some d) :
    (∀ file, d = .settings file → c = ⟨.readFile WSL_CONF_FILE, file⟩) ∧
    ∀ name accepted, d = .hostname name accepted → c = ⟨.sethostname name, accepted⟩ := by
  unfold nameEvent at h
  split at h
  · rename_i path file
    split at h
    · rename_i hpath
      cases h
      refine ⟨fun file hfile => ?_, fun _ _ hname => by cases hname⟩
      cases hfile
      rw [hpath]
    · cases h
  · cases h
    refine ⟨(fun _ hfile => by cases hfile), fun name accepted hname => ?_⟩
    cases hname
    rfl
  · split at h
    · cases h
      exact ⟨(fun _ hfile => by cases hfile), fun _ _ hname => by cases hname⟩
    · split at h
      · cases h
        exact ⟨(fun _ hfile => by cases hfile), fun _ _ hname => by cases hname⟩
      · cases h
  · cases h

theorem mem_nameEvents_settings {t : InitTrace} {file : FileRead}
    (h : .settings file ∈ nameEvents t) : ⟨.readFile WSL_CONF_FILE, file⟩ ∈ t := by
  obtain ⟨c, hc, hd⟩ := List.mem_filterMap.mp h
  exact (nameEvent_eq_some hd).1 file rfl ▸ hc

theorem mem_nameEvents_hostname {t : InitTrace} {name : Bytes} {accepted : Bool}
    (h : .hostname name accepted ∈ nameEvents t) : ⟨.sethostname name, accepted⟩ ∈ t := by
  obtain ⟨c, hc, hd⟩ := List.mem_filterMap.mp h
  exact (nameEvent_eq_some hd).2 name accepted rfl ▸ hc

/-- The name that is passed to `sethostname` is the one in `/etc/hostname` and in the line of the
host name in `/etc/hosts`, as far as these files are written. -/
def SameHostName (msg : Bytes) (t : InitTrace) : Prop :=
  ∀ cfg, parsedConfig msg = some cfg → ∀ name accepted, .hostname name accepted ∈ nameEvents t →
    (∀ contents, .hostnameFile contents ∈ nameEvents t → contents = name ++ [10]) ∧
    ∀ contents, .hostsFile contents ∈ nameEvents t →
      contents = hostsFile name cfg.domainname cfg.windowsHosts

/-- If `/etc/hosts` is generated and `[network] hostname` has a name, it is the name from the host
after the invalid characters have been removed from both. -/
def NamesAgree (msg : Bytes) (conf : Option WslConf) : Prop :=
  ∀ cfg, parsedConfig msg = some cfg → generatesHosts conf = true →
    ∀ name, nonEmpty (confHostname conf) = some name →
      networkCleanHostname (some name) = networkCleanHostname cfg.hostname

theorem namesAgree_iff {msg : Bytes} {conf : Option WslConf} {cfg : WslConfig}
    (hcfg : parsedConfig msg = some cfg) : NamesAgree msg conf ↔
      (generatesHosts conf = true → networkCleanHostname (some (rawHostname cfg.hostname
        (confHostname conf))) = networkCleanHostname cfg.hostname) := by
  constructor
  · intro h hgen
    cases hname : nonEmpty (confHostname conf) with
    | none => exact networkCleanHostname_raw hname
    | some name =>
      rw [rawHostname_of_some hname]
      exact h cfg hcfg hgen name hname
  · intro h cfg' hcfg' hgen name hname
    obtain rfl : cfg = cfg' := Option.some.inj (hcfg.symm.trans hcfg')
    have heq := h hgen
    rwa [rawHostname_of_some hname] at heq

theorem sameHostName_iff {msg : Bytes} {conf : Option WslConf} {t : InitTrace} {file : FileRead}
    (ht : nameEvents t = .settings file :: namesOf conf ((parsedConfig msg).map configNames)) :
    SameHostName msg t ↔ NamesAgree msg conf := by
  cases hcfg : parsedConfig msg with
  | none =>
    constructor
    · intro _ cfg h
      rw [hcfg] at h
      cases h
    · intro _ cfg h
      rw [hcfg] at h
      cases h
  | some cfg =>
    rw [namesAgree_iff hcfg]
    rw [hcfg] at ht
    change nameEvents t = .settings file :: namesApplied conf cfg.hostname cfg.domainname
      cfg.windowsHosts at ht
    unfold SameHostName
    rw [hcfg, ht]
    unfold namesApplied
    generalize networkCleanHostname (some (rawHostname cfg.hostname (confHostname conf))) = clean
    cases hgen : generatesHosts conf with
    | false => simp
    | true =>
      constructor
      · intro h _
        have hhosts := (h cfg rfl clean true (by simp)).2
          (Hvinit.hostsFile (networkCleanHostname cfg.hostname) cfg.domainname cfg.windowsHosts)
          (by simp)
        exact (hostsFile_injective hhosts).symm
      · rintro h cfg' hcfg' name accepted hname
        obtain rfl := Option.some.inj hcfg'
        obtain ⟨rfl, rfl⟩ : name = clean ∧ accepted = true := by simpa using hname
        rw [h rfl]
        simp

theorem nameEvents_handleInitialize (env : InitEnvironment) (t : InitTrace) {g : Globals} (msg : Bytes)
    {file : FileRead} (hg : g.config = none) (hconf : g.wslConf = none)
    (haccept : ∀ t name, env t (.sethostname name) = true)
    (hfile : ∀ t, env t (.readFile WSL_CONF_FILE) = file) :
    ∃ u, ((handleInitialize g msg).run env t).2 = t ++ u ∧
      nameEvents u = .settings file :: namesOf (wslConfOf file) ((parsedConfig msg).map configNames) := by
  obtain ⟨u, hu, hans, found, more, hevents, hmore⟩ :=
    Program.Ensures.run_answered (shows_handleInitialize msg hg hconf) env t
  change nameEvents u = _ at hevents
  refine ⟨u, hu, ?_⟩
  have hfound : found = file := by
    obtain ⟨t', ht'⟩ := hans.answer
      (mem_nameEvents_settings (hevents ▸ List.mem_cons_self : .settings found ∈ nameEvents u))
    exact ht'.trans (hfile t')
  have hnames : ∀ name, NameEvent.hostname name false ∉ more := by
    intro name hmem
    obtain ⟨t', ht'⟩ := hans.answer (mem_nameEvents_hostname
      (hevents ▸ List.mem_cons_of_mem _ hmem : .hostname name false ∈ nameEvents u))
    exact Bool.noConfusion (ht'.trans (haccept t' name))
  rw [hevents, hmore hnames, hfound]

/-- For every `Initialize` message and every `/etc/wsl.conf`, with a system that accepts host names:
the names are the same if and only if no other name is configured, or no `/etc/hosts` is generated,
or the message is too small. -/
theorem hosts_name_iff (env : InitEnvironment) (t : InitTrace) {g : Globals} (msg : Bytes)
    {file : FileRead} (hg : g.config = none) (hconf : g.wslConf = none)
    (haccept : ∀ t name, env t (.sethostname name) = true)
    (hfile : ∀ t, env t (.readFile WSL_CONF_FILE) = file) :
    ∃ u, ((handleInitialize g msg).run env t).2 = t ++ u ∧
      (SameHostName msg u ↔ NamesAgree msg (wslConfOf file)) := by
  obtain ⟨u, hu, hevents⟩ := nameEvents_handleInitialize env t msg hg hconf haccept hfile
  exact ⟨u, hu, sameHostName_iff hevents⟩

/-- The `Initialize` message of a host with the name `pc`. -/
def initializePc : Bytes :=
  header LxInitMessageInitialize 56 1 ++ fieldBytes [0, 3, 3, 3, 3, 3, 0, 0, 0, 1] ++
    (ascii "pc" ++ [0, 0])

/-- The plain environment with a configuration file. -/
def environmentWithConf (conf : Bytes) : InitEnvironment := fun t e =>
  match e with
  | .readFile _ => .contents conf
  | e => plainEnvironment t e

/-- Without a configuration file both names are `pc`. -/
theorem hosts_name_iff_plain : ∃ u,
    ((handleInitialize {} initializePc).run plainEnvironment []).2 = u ∧
      SameHostName initializePc u := by
  have hfile : ∀ t, plainEnvironment t (.readFile WSL_CONF_FILE) = .missing := fun _ => rfl
  obtain ⟨u, hu, hiff⟩ := hosts_name_iff plainEnvironment [] initializePc (g := {}) rfl rfl
    (fun _ _ => rfl) hfile
  refine ⟨u, hu, hiff.mpr ?_⟩
  intro cfg _ _ name hname
  have hnone : nonEmpty (confHostname (wslConfOf .missing)) = none := by decide
  rw [hnone] at hname
  cases hname

def confBox : Bytes := ascii "[network]\nhostname=box\n"

/-- With this file the system is called `box` and `/etc/hosts` says `pc`. -/
theorem hosts_named_pc :
    ∃ u, ((handleInitialize {} initializePc).run (environmentWithConf confBox) []).2 = u ∧
      NameEvent.hostname (ascii "box") true ∈ nameEvents u ∧
      NameEvent.hostsFile (hostsFile (ascii "pc") (some []) (some [])) ∈ nameEvents u ∧
      ¬ SameHostName initializePc u := by
  have hfile : ∀ t, environmentWithConf confBox t (.readFile WSL_CONF_FILE) = .contents confBox :=
    fun _ => rfl
  obtain ⟨u, hu, hevents⟩ := nameEvents_handleInitialize (environmentWithConf confBox) []
    initializePc (g := {}) rfl rfl (fun _ _ => rfl) hfile
  have hparsed : (parsedConfig initializePc).map configNames =
      some (some (ascii "pc"), some [], some []) := by decide
  have hraw : networkCleanHostname (some (rawHostname (some (ascii "pc"))
      (confHostname (wslConfOf (.contents confBox))))) = ascii "box" := by decide
  have hgenerates : generatesHosts (wslConfOf (.contents confBox)) = true := by decide
  have hclean : networkCleanHostname (some (ascii "pc")) = ascii "pc" := by decide
  rw [hparsed, namesOf, namesApplied, hraw, hclean, if_pos hgenerates] at hevents
  refine ⟨u, hu, by simp [hevents], by simp [hevents], fun h => ?_⟩
  obtain ⟨cfg, hcfg, hnames⟩ := Option.map_eq_some_iff.mp hparsed
  obtain ⟨-, hdomain, hhosts⟩ : cfg.hostname = some (ascii "pc") ∧ cfg.domainname = some [] ∧
      cfg.windowsHosts = some [] := by simpa [configNames] using hnames
  have hsame := (h cfg hcfg (ascii "box") true (by simp [hevents])).2
    (hostsFile (ascii "pc") (some []) (some [])) (by simp [hevents])
  rw [hdomain, hhosts] at hsame
  exact absurd (hostsFile_injective hsame) (by decide)

end WslFreeBSD.Hvinit
