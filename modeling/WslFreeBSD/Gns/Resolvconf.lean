import WslFreeBSD.Gns.Handlers
import WslFreeBSD.Lib.FileLines

/-!
# The lines of `resolv.conf`

A DNS notification brings four strings, and `gns_apply_dns_change` writes a file of directives. The
options come first and get no line break, and the JSON reader turns the escape of a line break into an
`n`. So directives run into each other unless there are no options, or nothing but options
(`resolvconf_iff`).
-/

namespace WslFreeBSD.Gns

open Lib

/-! ## Strings of a notification -/

/-- A byte in a JSON string, as the host writes it. -/
def jsonEscape (c : UInt8) : Bytes :=
  if c = 34 ∨ c = 92 then [92, c]
  else if c = 8 then ascii "\\b"
  else if c = 9 then ascii "\\t"
  else if c = 10 then ascii "\\n"
  else if c = 12 then ascii "\\f"
  else if c = 13 then ascii "\\r"
  else if c < 32 then ascii "\\u00" ++ [hexDigit (c.toNat / 16), hexDigit (c.toNat % 16)]
  else [c]

/-- What `gns_json_get_string` makes of it: it takes the character behind a backslash as it is. -/
def reread (c : UInt8) : Bytes :=
  match jsonEscape c with
  | 92 :: s => s
  | s => s

def rereadAll (s : Bytes) : Bytes := s.flatMap reread

/-- The member `key` of the settings is the string `value`, or there is no such string and `value` is
empty; and what arrives fits into the buffer. -/
structure HasString (settings : Bytes) (key : String) (size : Nat) (value : Bytes) : Prop where
  found : (∃ rest, gnsJsonFindValue settings key = some (34 :: (value.flatMap jsonEscape ++ 34 :: rest))) ∨
    value = [] ∧ ∀ v, gnsJsonFindValue settings key ≠ some (34 :: v)
  fits : (rereadAll value).length < size

structure DnsStrings where
  options : Bytes
  serverList : Bytes
  domain : Bytes
  search : Bytes
  deriving DecidableEq, Repr

/-- The settings of a notification with these strings. -/
structure DnsStrings.In (d : DnsStrings) (settings : Bytes) : Prop where
  options : HasString settings "Options" 256 d.options
  serverList : HasString settings "ServerList" 512 d.serverList
  domain : HasString settings "Domain" 128 d.domain
  search : HasString settings "Search" 256 d.search

theorem reread_spec (c : UInt8) :
    (∃ e u, jsonEscape c = 92 :: e :: u ∧ reread c = e :: u ∧ ∀ x ∈ u, x ≠ 34 ∧ x ≠ 92) ∨
      jsonEscape c = [c] ∧ reread c = [c] ∧ c ≠ 34 ∧ c ≠ 92 := by
  have hshape : ∀ c : UInt8,
      (jsonEscape c).head? = some 92 ∧ reread c = (jsonEscape c).tail ∧ reread c ≠ [] ∧
        (∀ x ∈ (reread c).tail, x ≠ 34 ∧ x ≠ 92) ∨
      jsonEscape c = [c] ∧ reread c = [c] ∧ c ≠ 34 ∧ c ≠ 92 :=
    forall_char (by decide +kernel)
  rcases hshape c with ⟨hhead, htail, hne, hplain⟩ | hplain
  · left
    obtain ⟨e, u, hu⟩ := List.exists_cons_of_ne_nil hne
    obtain ⟨b, t, ht⟩ : ∃ b t, jsonEscape c = b :: t := by
      cases h : jsonEscape c with
      | nil =>
        rw [h] at hhead
        cases hhead
      | cons b t => exact ⟨b, t, rfl⟩
    rw [ht] at hhead htail
    obtain rfl : b = 92 := Option.some.inj hhead
    rw [hu] at htail hplain
    exact ⟨e, u, by rw [ht]; exact congrArg (92 :: ·) htail.symm, hu, hplain⟩
  · exact Or.inr hplain

theorem reread_control (c : UInt8) :
    32 ≤ c ∧ reread c = [c] ∨
      c < 32 ∧ ∃ x u, reread c = x :: u ∧ x ≠ c ∧ x ≠ 44 ∧ x ≠ 32 := by
  have hall : ∀ c : UInt8, 32 ≤ c ∧ reread c = [c] ∨ c < 32 ∧ (reread c).head? ≠ none ∧
        ∀ x ∈ (reread c).head?, x ≠ c ∧ x ≠ 44 ∧ x ≠ 32 :=
    forall_char (by decide +kernel)
  refine (hall c).imp_right fun ⟨hlt, hne, hx⟩ => ⟨hlt, ?_⟩
  cases hr : reread c with
  | nil =>
    rw [hr] at hne
    exact absurd rfl hne
  | cons x u => exact ⟨x, u, rfl, hx x (by rw [hr]; rfl)⟩

theorem break_not_mem_reread : ∀ c : UInt8, 10 ∉ reread c := forall_char (by decide +kernel)

theorem break_not_mem_rereadAll (s : Bytes) : 10 ∉ rereadAll s := by
  intro h
  obtain ⟨c, -, hc⟩ := List.mem_flatMap.mp h
  exact break_not_mem_reread c hc

theorem rereadAll_cons (c : UInt8) (s : Bytes) : rereadAll (c :: s) = reread c ++ rereadAll s :=
  List.flatMap_cons

theorem length_le_rereadAll (s : Bytes) : s.length ≤ (rereadAll s).length := by
  induction s with
  | nil => exact Nat.le_refl _
  | cons c s ih =>
    have hpos : 1 ≤ (reread c).length := by
      rcases reread_control c with ⟨-, h⟩ | ⟨-, x, u, h, -⟩ <;> rw [h]
      · exact Nat.le_refl _
      · exact Nat.succ_pos _
    rw [rereadAll_cons, List.length_append, List.length_cons]
    omega

def NoControl (s : Bytes) : Prop := ∀ c ∈ s, 32 ≤ c

instance (s : Bytes) : Decidable (NoControl s) := inferInstanceAs (Decidable (∀ c ∈ s, 32 ≤ c))

theorem rereadAll_eq_self {s : Bytes} (h : NoControl s) : rereadAll s = s := by
  induction s with
  | nil => rfl
  | cons c s ih =>
    rcases reread_control c with ⟨-, hc⟩ | ⟨hlt, -⟩
    · rw [rereadAll_cons, hc, ih fun d hd => h d (List.mem_cons_of_mem _ hd)]
      rfl
    · exact absurd (h c List.mem_cons_self) (UInt8.not_le.mpr hlt)

theorem noControl_of_filter {q : UInt8 → Bool} (hq : ∀ c, c ≠ 44 → c ≠ 32 → q c = true) {s : Bytes}
    (h : (rereadAll s).filter q = s.filter q) : NoControl s := by
  induction s with
  | nil => exact fun c hc => absurd hc List.not_mem_nil
  | cons c s ih =>
    rw [rereadAll_cons, List.filter_append] at h
    rcases reread_control c with ⟨hge, hc⟩ | ⟨hlt, x, u, hc, hne, hcomma, hspace⟩
    · have htail : (rereadAll s).filter q = s.filter q := by
        have hfront : (c :: s).filter q = [c].filter q ++ s.filter q := by
          rw [← List.filter_append]
          rfl
        rw [hc, hfront] at h
        exact List.append_cancel_left h
      intro d hd
      rcases List.mem_cons.mp hd with rfl | hd
      · exact hge
      · exact ih htail d hd
    · have hqc : q c = true := by
        refine hq c ?_ ?_
        · rintro rfl
          exact absurd hlt (by decide)
        · rintro rfl
          exact absurd hlt (by decide)
      rw [hc, List.filter_cons_of_pos (hq x hcomma hspace), List.filter_cons_of_pos hqc] at h
      exact absurd (List.cons.inj h).1 hne

/-! ## Reading the strings -/

theorem copyString_plain {c : UInt8} (hquote : c ≠ 34) (hescape : c ≠ 92) (room : Nat) (v : Bytes) :
    copyString room (c :: v) = if room ≤ 1 then [] else c :: copyString (room - 1) v := by
  rw [copyString]
  · simp only [hquote, false_or]
  · intro c' v' hc
    exact absurd hc hescape

theorem cons_take (room : Nat) (c : UInt8) (s v : Bytes) :
    (if room ≤ 1 then [] else c :: (s.take (room - 1 - 1) ++ copyString (room - 1 - s.length) v)) =
      (c :: s).take (room - 1) ++ copyString (room - (c :: s).length) v := by
  have hnone : ∀ w, copyString 0 w = [] ∧ copyString 1 w = [] := by
    intro w
    constructor <;> unfold copyString <;> split <;> simp
  split
  · rename_i hroom
    have hzero : room - (c :: s).length = 0 := by
      rw [List.length_cons]
      omega
    rw [show room - 1 = 0 by omega, List.take_zero, hzero, (hnone v).1]
    rfl
  · rename_i hroom
    obtain ⟨n, hn⟩ := Nat.exists_eq_succ_of_ne_zero (n := room - 1) (by omega)
    have hlen : room - (c :: s).length = room - 1 - s.length := by
      rw [List.length_cons]
      omega
    rw [hlen, hn, List.take_succ_cons]
    rfl

theorem copyString_plainText {u : Bytes} (hu : ∀ x ∈ u, x ≠ 34 ∧ x ≠ 92) (room : Nat) (v : Bytes) :
    copyString room (u ++ v) = u.take (room - 1) ++ copyString (room - u.length) v := by
  induction u generalizing room with
  | nil => rw [List.take_nil]; rfl
  | cons c u ih =>
    obtain ⟨hquote, hescape⟩ := hu c List.mem_cons_self
    rw [List.cons_append, copyString_plain hquote hescape,
      ih (fun x hx => hu x (List.mem_cons_of_mem _ hx)), cons_take]

theorem copyString_escaped (c : UInt8) (room : Nat) (v : Bytes) :
    copyString room (jsonEscape c ++ v) =
      (reread c).take (room - 1) ++ copyString (room - (reread c).length) v := by
  rcases reread_spec c with ⟨e, u, hescape, hread, hu⟩ | ⟨hescape, hread, hquote, hback⟩
  · rw [hescape, hread, List.cons_append, List.cons_append, copyString, copyString_plainText hu,
      cons_take]
  · have hplain : ∀ x ∈ [c], x ≠ 34 ∧ x ≠ 92 := by
      intro x hx
      rw [List.mem_singleton.mp hx]
      exact ⟨hquote, hback⟩
    rw [hescape, hread, copyString_plainText hplain]

theorem copyString_all (s rest : Bytes) (room : Nat) :
    copyString room (s.flatMap jsonEscape ++ 34 :: rest) = (rereadAll s).take (room - 1) := by
  induction s generalizing room with
  | nil =>
    show copyString room (34 :: rest) = (rereadAll []).take (room - 1)
    rw [show rereadAll [] = [] from rfl, List.take_nil]
    unfold copyString
    simp
  | cons c s ih =>
    rw [List.flatMap_cons, List.append_assoc, copyString_escaped, ih, rereadAll_cons,
      List.take_append, Nat.sub_right_comm]

theorem stringField_eq {settings : Bytes} {key : String} {size : Nat} {value : Bytes}
    (h : HasString settings key size value) : stringField settings key size = rereadAll value := by
  unfold stringField gnsJsonGetString
  rcases h.found with ⟨rest, hfind⟩ | ⟨rfl, hnone⟩
  · rw [hfind]
    show copyString size (value.flatMap jsonEscape ++ 34 :: rest) = rereadAll value
    rw [copyString_all, List.take_of_length_le]
    have := h.fits
    omega
  · split
    · rename_i v heq
      exact absurd heq (hnone v)
    · rfl

/-! ## The file -/

/-- The entries of a list of servers, without spaces in front. -/
def entries (serverList : Bytes) : List Bytes := (tokens (· = 44) serverList).map (·.dropWhile (· = 32))

def nameserverLine (s : Bytes) : Bytes := ascii "nameserver " ++ s

def domainLines (domain : Bytes) : List Bytes := if domain = [] then [] else [ascii "domain " ++ domain]

def searchLines (search : Bytes) : List Bytes :=
  if searchLine search = [] then [] else [ascii "search " ++ searchLine search]

def directives (d : DnsStrings) : List Bytes :=
  (entries d.serverList).map nameserverLine ++ (domainLines d.domain ++ searchLines d.search)

theorem resolvconfContents_eq (d : DnsStrings) :
    resolvconfContents d.options d.serverList d.domain d.search =
      d.options ++ unlines (directives d) := by
  have hservers : ∀ l : List Bytes, (l.map fun s =>
      ascii "nameserver " ++ s.dropWhile (· = 32) ++ [10]).flatten =
        unlines ((l.map (·.dropWhile (· = 32))).map nameserverLine) := by
    intro l
    rw [unlines, List.map_map, List.flatMap_map]
    rfl
  have hdomain : (if d.domain = [] then [] else ascii "domain " ++ d.domain ++ [10]) =
      unlines (domainLines d.domain) := by
    unfold domainLines
    split
    · rfl
    · exact (List.append_nil _).symm
  have hsearch : (if searchLine d.search = [] then []
      else ascii "search " ++ searchLine d.search ++ [10]) = unlines (searchLines d.search) := by
    unfold searchLines
    split
    · rfl
    · exact (List.append_nil _).symm
  rw [resolvconfContents, hservers, hdomain, hsearch, directives, unlines_append, unlines_append,
    entries]
  simp only [List.append_assoc]

/-- The file has the lines of the options, a line for every server in order, at most one line for a
domain and one for a search list, and no others. -/
def HasDirectives (d : DnsStrings) (file : Bytes) : Prop :=
  ∃ domain search : List Bytes,
    fileLines file = fileLines d.options ++
      ((entries d.serverList).map nameserverLine ++ (domain ++ search)) ∧
    domain.length ≤ 1 ∧ (∀ l ∈ domain, ascii "domain " <+: l) ∧
    search.length ≤ 1 ∧ ∀ l ∈ search, ascii "search " <+: l

/-- The servers, the domain and the search list make no lines. -/
def OptionsOnly (d : DnsStrings) : Prop :=
  (∀ c ∈ d.serverList, c = 44) ∧ d.domain = [] ∧ ∀ c ∈ d.search, c = 44 ∨ c = 32

instance (d : DnsStrings) : Decidable (OptionsOnly d) :=
  inferInstanceAs (Decidable (_ ∧ _ ∧ _))

def DnsStrings.arrived (d : DnsStrings) : DnsStrings where
  options := rereadAll d.options
  serverList := rereadAll d.serverList
  domain := rereadAll d.domain
  search := rereadAll d.search

/-! ## What is in the lines -/

theorem mem_foldl_search {ts : List Bytes} {out : Bytes} {b : UInt8}
    (h : b ∈ ts.foldl (fun out s =>
      let out := if out = [] then out else (out ++ [32]).take 255
      (out ++ s.dropWhile (· = 32)).take 255) out) : b ∈ out ∨ b = 32 ∨ ∃ t ∈ ts, b ∈ t := by
  induction ts generalizing out with
  | nil => exact Or.inl h
  | cons t ts ih =>
    rcases ih h with h | h | ⟨t', ht', h⟩
    · rcases List.mem_append.mp (List.mem_of_mem_take h) with h | h
      · split at h
        · exact Or.inl h
        · rcases List.mem_append.mp (List.mem_of_mem_take h) with h | h
          · exact Or.inl h
          · exact Or.inr (Or.inl (List.mem_singleton.mp h))
      · exact Or.inr (Or.inr ⟨t, List.mem_cons_self, (List.dropWhile_sublist _).subset h⟩)
    · exact Or.inr (Or.inl h)
    · exact Or.inr (Or.inr ⟨t', List.mem_cons_of_mem _ ht', h⟩)

theorem mem_searchLine {search : Bytes} {b : UInt8} (h : b ∈ searchLine search) : b = 32 ∨ b ∈ search := by
  rcases mem_foldl_search h with h | h | ⟨t, ht, h⟩
  · exact absurd h List.not_mem_nil
  · exact Or.inl h
  · exact Or.inr (mem_of_mem_tokens ht h)

theorem foldl_search_eq_nil {ts : List Bytes} {out : Bytes} :
    ts.foldl (fun out s =>
      let out := if out = [] then out else (out ++ [32]).take 255
      (out ++ s.dropWhile (· = 32)).take 255) out = [] ↔
      out = [] ∧ ∀ t ∈ ts, t.dropWhile (· = 32) = [] := by
  induction ts generalizing out with
  | nil => exact ⟨fun h => ⟨h, fun t ht => absurd ht List.not_mem_nil⟩, fun h => h.1⟩
  | cons t ts ih =>
    rw [List.foldl_cons, ih, List.forall_mem_cons, ← and_assoc]
    refine and_congr_left fun _ => ?_
    by_cases hout : out = []
    · simp [hout]
    · simp [hout]

theorem searchLine_eq_nil {search : Bytes} :
    searchLine search = [] ↔ ∀ c ∈ search, c = 44 ∨ c = 32 := by
  have hflat := flatten_tokens (· = 44) search
  rw [searchLine, foldl_search_eq_nil, and_iff_right rfl]
  constructor
  · intro h c hc
    by_contra hother
    obtain ⟨hcomma, hspace⟩ := not_or.mp hother
    have hmem : c ∈ (tokens (· = 44) search).flatten := by
      rw [hflat]
      exact List.mem_filter.mpr ⟨hc, by simpa using hcomma⟩
    obtain ⟨t, ht, hct⟩ := List.mem_flatten.mp hmem
    exact hspace (of_decide_eq_true (List.dropWhile_eq_nil_iff.mp (h t ht) c hct))
  · intro h t ht
    refine List.dropWhile_eq_nil_iff.mpr fun c hc => decide_eq_true ?_
    have hmem : c ∈ search.filter (fun b => !decide (b = 44)) := hflat ▸ List.mem_flatten_of_mem ht hc
    obtain ⟨hsearch, hcomma⟩ := List.mem_filter.mp hmem
    exact (h c hsearch).resolve_left (by simpa using hcomma)

theorem forall_mem_rereadAll {P : UInt8 → Prop} (hP : ∀ c, P c → c = 44 ∨ c = 32) {s : Bytes} :
    (∀ c ∈ rereadAll s, P c) ↔ ∀ c ∈ s, P c := by
  constructor
  · intro h c hc
    have hmem : ∀ b ∈ reread c, P b := fun b hb => h b (List.mem_flatMap.mpr ⟨c, hc, hb⟩)
    rcases reread_control c with ⟨-, hr⟩ | ⟨-, x, u, hr, -, hcomma, hspace⟩
    · exact hmem c (by rw [hr]; exact List.mem_singleton.mpr rfl)
    · have hx := hP x (hmem x (by rw [hr]; exact List.mem_cons_self))
      exact absurd hx (not_or.mpr ⟨hcomma, hspace⟩)
  · intro h c hc
    have hcontrol : NoControl s := by
      intro b hb
      rcases hP b (h b hb) with rfl | rfl <;> decide
    rw [rereadAll_eq_self hcontrol] at hc
    exact h c hc

theorem entries_eq_nil {s : Bytes} : entries s = [] ↔ ∀ c ∈ s, c = 44 := by
  rw [entries, List.map_eq_nil_iff, tokens_eq_nil_iff]
  exact forall₂_congr fun c _ => decide_eq_true_iff

theorem directives_eq_nil (d : DnsStrings) : directives d = [] ↔ OptionsOnly d := by
  have hdomain : domainLines d.domain = [] ↔ d.domain = [] := by
    unfold domainLines
    split <;> simp_all
  have hsearch : searchLines d.search = [] ↔ searchLine d.search = [] := by
    unfold searchLines
    split <;> simp_all
  rw [directives, List.append_eq_nil_iff, List.append_eq_nil_iff, List.map_eq_nil_iff, entries_eq_nil,
    hdomain, hsearch, searchLine_eq_nil]
  exact Iff.rfl

theorem optionsOnly_arrived (d : DnsStrings) : OptionsOnly d.arrived ↔ OptionsOnly d := by
  have hnil : rereadAll d.domain = [] ↔ d.domain = [] := by
    constructor
    · intro h
      have hlen := length_le_rereadAll d.domain
      rw [h] at hlen
      exact List.length_eq_zero_iff.mp (Nat.le_zero.mp hlen)
    · intro h
      rw [h]
      rfl
  refine and_congr (forall_mem_rereadAll fun c hc => Or.inl hc) (and_congr hnil ?_)
  exact forall_mem_rereadAll fun c hc => hc

/-! ## Lines that stay apart -/

theorem break_not_mem_directives {d : DnsStrings} (hservers : 10 ∉ d.serverList)
    (hdomain : 10 ∉ d.domain) (hsearch : 10 ∉ d.search) : ∀ l ∈ directives d, 10 ∉ l := by
  intro l hl hbreak
  rcases List.mem_append.mp hl with hl | hl
  · obtain ⟨e, he, rfl⟩ := List.mem_map.mp hl
    obtain ⟨t, ht, rfl⟩ := List.mem_map.mp he
    rcases List.mem_append.mp hbreak with hbreak | hbreak
    · exact absurd hbreak (by decide)
    · exact hservers (mem_of_mem_tokens ht ((List.dropWhile_sublist _).subset hbreak))
  · rcases List.mem_append.mp hl with hl | hl
    · unfold domainLines at hl
      split at hl
      · exact absurd hl List.not_mem_nil
      · rw [List.mem_singleton.mp hl] at hbreak
        rcases List.mem_append.mp hbreak with hbreak | hbreak
        · exact absurd hbreak (by decide)
        · exact hdomain hbreak
    · unfold searchLines at hl
      split at hl
      · exact absurd hl List.not_mem_nil
      · rw [List.mem_singleton.mp hl] at hbreak
        rcases List.mem_append.mp hbreak with hbreak | hbreak
        · exact absurd hbreak (by decide)
        · exact (mem_searchLine hbreak).elim (fun h => absurd h (by decide)) hsearch

theorem fileLines_directives (d : DnsStrings) :
    fileLines (unlines (directives d.arrived)) = directives d.arrived :=
  fileLines_unlines (break_not_mem_directives (break_not_mem_rereadAll _) (break_not_mem_rereadAll _)
    (break_not_mem_rereadAll _))

theorem domainLines_spec (domain : Bytes) :
    (domainLines domain).length ≤ 1 ∧ ∀ l ∈ domainLines domain, ascii "domain " <+: l := by
  unfold domainLines
  split
  · exact ⟨Nat.zero_le _, fun l hl => absurd hl List.not_mem_nil⟩
  · refine ⟨Nat.le_refl _, fun l hl => ?_⟩
    rw [List.mem_singleton.mp hl]
    exact List.prefix_append _ _

theorem searchLines_spec (search : Bytes) :
    (searchLines search).length ≤ 1 ∧ ∀ l ∈ searchLines search, ascii "search " <+: l := by
  unfold searchLines
  split
  · exact ⟨Nat.zero_le _, fun l hl => absurd hl List.not_mem_nil⟩
  · refine ⟨Nat.le_refl _, fun l hl => ?_⟩
    rw [List.mem_singleton.mp hl]
    exact List.prefix_append _ _

theorem filter_servers {servers others : List Bytes}
    (hothers : ∀ l ∈ others, ascii "domain " <+: l ∨ ascii "search " <+: l) :
    (servers.map nameserverLine ++ others).filter ((ascii "nameserver ").isPrefixOf ·) =
      servers.map nameserverLine := by
  have hservers : ∀ l ∈ servers.map nameserverLine, (ascii "nameserver ").isPrefixOf l = true := by
    intro l hl
    obtain ⟨e, -, rfl⟩ := List.mem_map.mp hl
    exact List.isPrefixOf_iff_prefix.mpr (List.prefix_append _ _)
  have hnone : ∀ l ∈ others, ¬ (ascii "nameserver ").isPrefixOf l = true := by
    intro l hl hpre
    obtain ⟨t, rfl⟩ := List.isPrefixOf_iff_prefix.mp hpre
    rcases hothers _ hl with h | h
    · exact absurd (List.cons_prefix_cons.mp h).1 (by decide)
    · exact absurd (List.cons_prefix_cons.mp h).1 (by decide)
  rw [List.filter_append, List.filter_eq_self.mpr hservers, List.filter_eq_nil_iff.mpr hnone,
    List.append_nil]

theorem nameserverLine_injective : Function.Injective nameserverLine := fun _ _ h =>
  List.append_cancel_left h

theorem filter_entries (s : Bytes) :
    (entries s).flatten.filter (fun c => c ≠ 44 ∧ c ≠ 32) = s.filter (fun c => c ≠ 44 ∧ c ≠ 32) := by
  have hstrip : ∀ t : Bytes, (t.dropWhile (· = 32)).filter (fun c => c ≠ 44 ∧ c ≠ 32) =
      t.filter (fun c => c ≠ 44 ∧ c ≠ 32) := by
    intro t
    have hspaces : (t.takeWhile (· = 32)).filter (fun c => c ≠ 44 ∧ c ≠ 32) = [] := by
      refine List.filter_eq_nil_iff.mpr fun c hc => ?_
      have hspace := List.mem_takeWhile_imp hc
      obtain rfl : c = 32 := by simpa using hspace
      decide
    conv_rhs => rw [← List.takeWhile_append_dropWhile (p := (· = 32)) (l := t), List.filter_append,
      hspaces, List.nil_append]
  have hmap : ∀ ts : List Bytes,
      ((ts.map (·.dropWhile (· = 32))).flatten).filter (fun c => c ≠ 44 ∧ c ≠ 32) =
        ts.flatten.filter (fun c => c ≠ 44 ∧ c ≠ 32) := by
    intro ts
    induction ts with
    | nil => rfl
    | cons t ts ih =>
      rw [List.map_cons, List.flatten_cons, List.filter_append, hstrip, ih, List.flatten_cons,
        List.filter_append]
  rw [entries, hmap, flatten_tokens, List.filter_filter]
  refine List.filter_congr fun c _ => ?_
  by_cases hc : c = 44 <;> simp [hc]

theorem noControl_of_entries {s : Bytes} (h : entries (rereadAll s) = entries s) : NoControl s := by
  refine noControl_of_filter (q := fun c => c ≠ 44 ∧ c ≠ 32)
    (fun c hcomma hspace => decide_eq_true ⟨hcomma, hspace⟩) ?_
  rw [← filter_entries, h, filter_entries]

theorem firstLine_ne_nil {d : DnsStrings} (h : directives d ≠ []) :
    (unlines (directives d)).takeWhile (· ≠ 10) ≠ [] := by
  have hfirst : ∀ l ∈ directives d, ∃ c t, c ≠ 10 ∧ l = c :: t := by
    intro l hl
    rcases List.mem_append.mp hl with hl | hl
    · obtain ⟨e, -, rfl⟩ := List.mem_map.mp hl
      exact ⟨110, _, by decide, rfl⟩
    · rcases List.mem_append.mp hl with hl | hl
      · obtain ⟨t, rfl⟩ := (domainLines_spec d.domain).2 l hl
        exact ⟨100, _, by decide, rfl⟩
      · obtain ⟨t, rfl⟩ := (searchLines_spec d.search).2 l hl
        exact ⟨115, _, by decide, rfl⟩
  obtain ⟨l, ls, hls⟩ := List.exists_cons_of_ne_nil h
  obtain ⟨c, t, hc, rfl⟩ := hfirst l (hls ▸ List.mem_cons_self)
  rw [hls, unlines_cons, List.cons_append, List.takeWhile_cons_of_pos (by simpa using hc)]
  exact List.cons_ne_nil _ _

/-! ## The condition -/

/-- The file that is written for a notification. -/
def writtenFile (d : DnsStrings) : Bytes := rereadAll d.options ++ unlines (directives d.arrived)

theorem hasDirectives_of_no_options {d : DnsStrings} (hoptions : d.options = []) :
    HasDirectives d (writtenFile d) ↔ NoControl d.serverList := by
  have hfile : writtenFile d = unlines (directives d.arrived) := by
    rw [writtenFile, hoptions]
    rfl
  have hnone : fileLines d.options = [] := by rw [hoptions, fileLines_nil]
  rw [HasDirectives, hfile, fileLines_directives, hnone]
  constructor
  · rintro ⟨domain, search, hlines, -, hdomain, -, hsearch⟩
    have hothers : ∀ l ∈ domain ++ search, ascii "domain " <+: l ∨ ascii "search " <+: l := fun l hl =>
      (List.mem_append.mp hl).imp (hdomain l) (hsearch l)
    have hothers' : ∀ l ∈ domainLines d.arrived.domain ++ searchLines d.arrived.search,
        ascii "domain " <+: l ∨ ascii "search " <+: l := fun l hl =>
      (List.mem_append.mp hl).imp ((domainLines_spec _).2 l) ((searchLines_spec _).2 l)
    have hfilter := congrArg (List.filter ((ascii "nameserver ").isPrefixOf ·)) hlines
    rw [directives, filter_servers hothers', List.nil_append, filter_servers hothers] at hfilter
    exact noControl_of_entries (List.map_injective_iff.mpr nameserverLine_injective hfilter)
  · intro hcontrol
    refine ⟨domainLines d.arrived.domain, searchLines d.arrived.search, ?_,
      (domainLines_spec _).1, (domainLines_spec _).2, (searchLines_spec _).1, (searchLines_spec _).2⟩
    have hservers : d.arrived.serverList = d.serverList := rereadAll_eq_self hcontrol
    rw [directives, hservers, List.nil_append]

theorem hasDirectives_of_options {d : DnsStrings} (hoptions : d.options ≠ []) :
    HasDirectives d (writtenFile d) ↔ NoControl d.options ∧ OptionsOnly d := by
  have hlen := length_le_rereadAll d.options
  constructor
  · rintro ⟨domain, search, hlines, -⟩
    have hne : writtenFile d ≠ [] := by
      refine List.append_ne_nil_of_left_ne_nil (fun h => hoptions ?_) _
      rw [h] at hlen
      exact List.length_eq_zero_iff.mp (Nat.le_zero.mp hlen)
    obtain ⟨rest, hfile⟩ := fileLines_eq_cons hne
    obtain ⟨rest', hsent⟩ := fileLines_eq_cons hoptions
    rw [hfile, hsent, List.cons_append] at hlines
    -- the first lines agree, and the one of the file is as long as the options at least
    have hfirst := (List.cons.inj hlines).1
    have hbreak : ∀ c ∈ rereadAll d.options, decide (c ≠ 10) = true := fun c hc =>
      decide_eq_true fun heq => break_not_mem_rereadAll d.options (heq ▸ hc)
    rw [writtenFile, List.takeWhile_append_of_pos hbreak] at hfirst
    have hshort : (d.options.takeWhile (· ≠ 10)).length ≤ d.options.length :=
      (List.takeWhile_sublist _).length_le
    have htotal := congrArg List.length hfirst
    rw [List.length_append] at htotal
    have hnone : (unlines (directives d.arrived)).takeWhile (· ≠ 10) = [] :=
      List.length_eq_zero_iff.mp (by omega)
    have hwhole : d.options.takeWhile (· ≠ 10) = d.options :=
      (List.takeWhile_sublist _).eq_of_length (by omega)
    rw [hnone, List.append_nil, hwhole] at hfirst
    constructor
    · refine noControl_of_filter (q := fun _ => true) (fun _ _ _ => rfl) ?_
      rw [hfirst]
    · by_contra hmore
      have hdirectives := mt (directives_eq_nil d.arrived).mp (mt (optionsOnly_arrived d).mp hmore)
      exact firstLine_ne_nil hdirectives hnone
  · rintro ⟨hcontrol, honly⟩
    have hnil : directives d.arrived = [] :=
      (directives_eq_nil _).mpr ((optionsOnly_arrived d).mpr honly)
    have hservers : entries d.serverList = [] := entries_eq_nil.mpr honly.1
    refine ⟨[], [], ?_, Nat.zero_le _, fun l hl => absurd hl List.not_mem_nil, Nat.zero_le _,
      fun l hl => absurd hl List.not_mem_nil⟩
    rw [writtenFile, hnil, rereadAll_eq_self hcontrol, hservers]
    exact (congrArg fileLines (List.append_nil _)).trans (List.append_nil _).symm

def writeResolvconf (g : Globals) (file : Bytes) : Handler Unit := do
  let _ ← Program.perform (Op.writeFile g.resolvconfPath file)
  pure ()

theorem gnsApplyDnsChange_eq {g : Globals} {settings requestType : Bytes} {d : DnsStrings}
    (hgenerate : g.generateResolvconf = true) (hrequest : requestType ≠ ascii "Remove")
    (hd : d.In settings) :
    gnsApplyDnsChange g settings requestType = writeResolvconf g (writtenFile d) := by
  have hcontents : resolvconfContents (stringField settings "Options" 256)
      (stringField settings "ServerList" 512) (stringField settings "Domain" 128)
      (stringField settings "Search" 256) = writtenFile d := by
    rw [stringField_eq hd.options, stringField_eq hd.serverList, stringField_eq hd.domain,
      stringField_eq hd.search]
    exact resolvconfContents_eq d.arrived
  have hnot : ¬ isText requestType "Remove" = true := fun h => hrequest (of_decide_eq_true h)
  unfold gnsApplyDnsChange
  rw [if_neg hnot, if_pos hgenerate, hcontents]
  rfl

/-- A notification writes the lines that it should exactly if it has no options, and no control character
in its list of servers, or if it has nothing but options without control characters. -/
theorem resolvconf_iff {g : Globals} {settings requestType : Bytes} {d : DnsStrings}
    (hgenerate : g.generateResolvconf = true) (hrequest : requestType ≠ ascii "Remove")
    (hd : d.In settings) :
    ∃ file, gnsApplyDnsChange g settings requestType = writeResolvconf g file ∧
      (HasDirectives d file ↔ d.options = [] ∧ NoControl d.serverList ∨
        NoControl d.options ∧ OptionsOnly d) := by
  refine ⟨writtenFile d, gnsApplyDnsChange_eq hgenerate hrequest hd, ?_⟩
  by_cases hoptions : d.options = []
  · rw [hasDirectives_of_no_options hoptions]
    constructor
    · exact fun h => Or.inl ⟨hoptions, h⟩
    · rintro (⟨-, h⟩ | ⟨-, h⟩)
      · exact h
      · intro c hc
        rw [h.1 c hc]
        decide
  · rw [hasDirectives_of_options hoptions]
    exact ⟨Or.inr, fun h => h.resolve_left fun h => hoptions h.1⟩

def serverStrings : DnsStrings := ⟨[], ascii "8.8.8.8, 1.1.1.1", ascii "lan", []⟩

theorem serverStrings_in :
    serverStrings.In (ascii "\x7b\"ServerList\":\"8.8.8.8, 1.1.1.1\",\"Domain\":\"lan\"\x7d") where
  options := ⟨Or.inr ⟨rfl, by simp [show gnsJsonFindValue (ascii
    "\x7b\"ServerList\":\"8.8.8.8, 1.1.1.1\",\"Domain\":\"lan\"\x7d") "Options" = none by decide]⟩,
    by decide⟩
  serverList := ⟨Or.inl ⟨ascii ",\"Domain\":\"lan\"\x7d", by decide⟩, by decide⟩
  domain := ⟨Or.inl ⟨ascii "\x7d", by decide⟩, by decide⟩
  search := ⟨Or.inr ⟨rfl, by simp [show gnsJsonFindValue (ascii
    "\x7b\"ServerList\":\"8.8.8.8, 1.1.1.1\",\"Domain\":\"lan\"\x7d") "Search" = none by decide]⟩,
    by decide⟩

theorem resolvconf_servers :
    ∃ file, gnsApplyDnsChange {} (ascii "\x7b\"ServerList\":\"8.8.8.8, 1.1.1.1\",\"Domain\":\"lan\"\x7d")
        (ascii "Add") = writeResolvconf {} file ∧
      (HasDirectives serverStrings file ↔
        serverStrings.options = [] ∧ NoControl serverStrings.serverList ∨
          NoControl serverStrings.options ∧ OptionsOnly serverStrings) :=
  resolvconf_iff rfl (by decide) serverStrings_in

def optionStrings : DnsStrings := ⟨ascii "options edns0", ascii "8.8.8.8", [], []⟩

def optionSettings : Bytes := ascii "\x7b\"Options\":\"options edns0\",\"ServerList\":\"8.8.8.8\"\x7d"

theorem optionStrings_in : optionStrings.In optionSettings where
  options := ⟨Or.inl ⟨ascii ",\"ServerList\":\"8.8.8.8\"\x7d", by decide⟩, by decide⟩
  serverList := ⟨Or.inl ⟨ascii "\x7d", by decide⟩, by decide⟩
  domain := ⟨Or.inr ⟨rfl, by simp [show gnsJsonFindValue optionSettings "Domain" = none by decide]⟩,
    by decide⟩
  search := ⟨Or.inr ⟨rfl, by simp [show gnsJsonFindValue optionSettings "Search" = none by decide]⟩,
    by decide⟩

theorem writeResolvconf_injective {g : Globals} {file file' : Bytes}
    (h : writeResolvconf g file = writeResolvconf g file') : file = file' := by
  have hcall := Program.call.inj h
  exact (Op.writeFile.inj hcall.1).2

/-- The only line is `options edns0nameserver 8.8.8.8`. -/
theorem options_swallow_server :
    ¬ ∀ (g : Globals) (settings requestType : Bytes) (d : DnsStrings), g.generateResolvconf = true →
      requestType ≠ ascii "Remove" → d.In settings →
      ∃ file, gnsApplyDnsChange g settings requestType = writeResolvconf g file ∧
        HasDirectives d file := by
  intro h
  obtain ⟨file, hwrite, hlines⟩ := h {} optionSettings (ascii "Add") optionStrings rfl (by decide)
    optionStrings_in
  rw [gnsApplyDnsChange_eq rfl (by decide) optionStrings_in] at hwrite
  rw [← writeResolvconf_injective hwrite, hasDirectives_of_options (by decide)] at hlines
  exact absurd hlines.2 (by decide)

end WslFreeBSD.Gns
