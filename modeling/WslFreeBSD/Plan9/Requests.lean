import WslFreeBSD.Plan9.Handler
import WslFreeBSD.Plan9.Methods

/-!
# What the handlers of requests do

The rules for the parts of a handler: reading a field of the message, looking up a fid, making room for
the response and writing a field of it. `Terms` is what is known of a request before it is handled.
`Done`, `Failed` and `Stuck` say what then holds behind a handler that answers, one that fails and one
that halts.
-/

namespace WslFreeBSD.Plan9

open Lib

def Fid.root : Fid → Root
  | .file f => f.root
  | .xattr x => x.root

theorem Fid.root_view (item : Fid) : item.view.root = item.root := by
  cases item <;> rfl

/-- What is known of a request before it is handled. -/
structure Terms where
  /-- what the message has, if the request does not halt -/
  needed : Prop
  /-- what the message has to have, so that it is not read behind its end -/
  enough : Prop
  /-- a request that fails is not noticed -/
  steady : Prop
  /-- the response may be written behind its end -/
  overrun : Prop
  /-- the request waits for itself -/
  own : Prop
  /-- the roots that a new fid can have -/
  source : Root → Prop
  /-- what is seen of a fid -/
  see : Fid → Fid
  see_root : ∀ item, (see item).root = item.root

namespace Terms

def view (T : Terms) (h : Handler) : (Nat → Option Fid) × Nat × Bool × Bool :=
  (fun fid => (h.fids fid).map T.see, h.negotiatedSize, h.negotiated, h.use9P2000W)

theorem view_setFid {T : Terms} {h : Handler} {fid : Nat} {item item' : Fid}
    (hfid : h.fids fid = some item) (hsee : T.see item' = T.see item) :
    T.view (h.setFid fid (some item')) = T.view h := by
  refine Prod.ext (funext fun n => ?_) rfl
  by_cases hn : n = fid
  · subst hn
    simp [view, Handler.setFid, hfid, hsee]
  · simp [view, Handler.setFid, Function.update_of_ne hn]

/-- The rest of the message decides whether there is enough of it. -/
def Reads (T : Terms) (fields : List Field) (b : Bytes) : Prop :=
  (holds fields b → T.needed) ∧ (T.enough → holds fields b)

/-- A fid has the root that it had before, or it is new and has one that it can have. -/
def Heirs (T : Terms) (h h' : Handler) : Prop :=
  ∀ fid item, h'.fids fid = some item → (∃ old, h.fids fid = some old ∧ old.root = item.root) ∨
    h.fids fid = none ∧ T.source item.root

def Done (T : Terms) (h : Handler) (t : MessageType) (_ : Unit) (c : Context) : Prop :=
  T.needed ∧ T.Heirs h c.handler ∧ (T.overrun ∨ Spells (replyFields t) c.response.written ∧
    headerSize + c.response.written.length ≤ c.handler.negotiatedSize)

def Failed (T : Terms) (S : Setting) (h : Handler) (e : Int) (c : Context) : Prop :=
  T.needed ∧ S.errors e ∧ T.Heirs h c.handler ∧ (T.steady → T.view c.handler = T.view h)

def Stuck (T : Terms) (S : Setting) : Halt → Context → Prop
  | .readPast, _ => ¬ T.enough
  | .writePast, _ => T.overrun
  | .terminate, _ => ¬ S.restored
  | .waiting, _ => T.own

section Heirs

variable {T : Terms} {h h' : Handler} {fid : Nat} {item : Fid}

theorem heirs_of_view (hview : T.view h' = T.view h) : T.Heirs h h' := by
  intro fid item hitem
  have hfid : (h'.fids fid).map T.see = (h.fids fid).map T.see :=
    congrFun (congrArg Prod.fst hview) fid
  rw [hitem, eq_comm, Option.map_some, Option.map_eq_some_iff] at hfid
  obtain ⟨old, hold, hitemView⟩ := hfid
  refine .inl ⟨old, hold, ?_⟩
  rw [← T.see_root, hitemView, T.see_root]

theorem heirs_of_fids (hfids : h'.fids = h.fids) : T.Heirs h h' :=
  fun _ item hitem => .inl ⟨item, hfids ▸ hitem, rfl⟩

theorem heirs_refl : T.Heirs h h := heirs_of_fids rfl

theorem heirs_update {new : Option Fid} (hfids : h'.fids = Function.update h.fids fid new)
    (hnew : ∀ item, new = some item → (∃ old, h.fids fid = some old ∧ old.root = item.root) ∨
      h.fids fid = none ∧ T.source item.root) : T.Heirs h h' := by
  intro n item hitem
  rw [hfids] at hitem
  by_cases hn : n = fid
  · subst hn
    rw [Function.update_self] at hitem
    exact hnew item hitem
  · rw [Function.update_of_ne hn] at hitem
    exact .inl ⟨item, hitem, rfl⟩

theorem heirs_remove : T.Heirs h (h.setFid fid none) := heirs_update rfl nofun

theorem heirs_replace {old : Fid} (hold : h.fids fid = some old) (hroot : old.root = item.root) :
    T.Heirs h (h.setFid fid (some item)) :=
  heirs_update rfl fun _ hitem => .inl ⟨old, hold, Option.some.inj hitem ▸ hroot⟩

theorem heirs_emplace (hfid : h.fids fid = none) (hroot : T.source item.root) :
    T.Heirs h (h.setFid fid (some item)) :=
  heirs_update rfl fun _ hitem => .inr ⟨hfid, Option.some.inj hitem ▸ hroot⟩

end Heirs

variable {T : Terms} {fields : List Field} {b : Bytes}

theorem Reads.needed (hT : T.Reads [] b) : T.needed := hT.1 rfl

theorem Reads.int {n : Nat} (hT : T.Reads (.int n :: fields) b) (h : n ≤ b.length) :
    T.Reads fields (b.drop n) := by
  simpa [Reads, holds, h] using hT

theorem Reads.int_short {n : Nat} (hT : T.Reads (.int n :: fields) b) (h : b.length < n) :
    ¬ T.enough := by
  intro henough
  have := hT.2 henough
  simp only [holds, Bool.and_eq_true, decide_eq_true_eq] at this
  omega

theorem Reads.string (hT : T.Reads (.string :: fields) b) (h : holdsString b) :
    T.Reads fields (b.drop (2 + stringLength b)) := by
  simpa [Reads, holds, h] using hT

theorem Reads.string_short (hT : T.Reads (.string :: fields) b) (h : ¬ holdsString b) :
    ¬ T.enough := by
  intro henough
  have := hT.2 henough
  simp [holds, h] at this

theorem Reads.name (hT : T.Reads (.name :: fields) b) (h : holdsString b) (hname : isName (stringAt b)) :
    T.Reads fields (b.drop (2 + stringLength b)) := by
  simpa [Reads, holds, h, hname] using hT

theorem Reads.name_refused (hT : T.Reads (.name :: fields) b) (h : holdsString b)
    (hname : ¬ isName (stringAt b)) : T.needed :=
  hT.1 (by simp [holds, h, hname])

theorem Reads.name_short (hT : T.Reads (.name :: fields) b) (h : ¬ holdsString b) : ¬ T.enough := by
  intro henough
  have := hT.2 henough
  simp [holds, h] at this

end Terms

variable {α β : Type} {S : Setting} {T : Terms} {h : Handler} {b : Bytes}
  {w : MessageResponse} {t : MessageType} {V : β → Context → Prop} {E : Int → Context → Prop}

/-- A part of a handler, at a context that is known. -/
abbrev At (S : Setting) (T : Terms) (c : Context) (m : Op Context β)
    (V : β → Context → Prop) (E : Int → Context → Prop) : Prop :=
  Action.Spec (S.interface .server) (fun c' => c' = c) m V E (T.Stuck S)

theorem At.bind {c : Context} {m : Op Context α} {k : α → Op Context β} {A : α → Context → Prop}
    (hm : At S T c m A E) (hk : ∀ a c', A a c' → At S T c' (k a) V E) :
    At S T c (m >>= k) V E :=
  Action.Spec.bind hm fun a => Action.spec_of_state fun c' hc' => hk a c' hc'

/-! ## Reading -/

section Reading

variable {fields : List Field}

theorem at_read {n : Nat} (hshort : b.length < n → ¬ T.enough) :
    At S T ⟨h, b, w⟩ (SpanReader.read n)
      (fun s c => n ≤ b.length ∧ s = b.take n ∧ c = ⟨h, b.drop n, w⟩) E := by
  refine .get_then (.ite (fun hlt => Action.spec_halt fun _ _ => hshort hlt) fun hlt => ?_)
  exact .modify_then (Action.spec_pure fun _ hc => ⟨Nat.le_of_not_lt hlt, rfl, hc⟩)

theorem at_uint {n : Nat} (hshort : b.length < n → ¬ T.enough) :
    At S T ⟨h, b, w⟩ (SpanReader.uint n)
      (fun v c => n ≤ b.length ∧ v = leAt 0 n b ∧ c = ⟨h, b.drop n, w⟩) E := by
  refine (at_read hshort).bind fun s c hs => Action.spec_pure fun _ hc => ⟨hs.1, ?_, hc ▸ hs.2.2⟩
  rw [hs.2.1, leAt_take (by omega)]

theorem uint_then {n : Nat} {k : Nat → Op Context β} (hT : T.Reads (.int n :: fields) b)
    (hk : T.Reads fields (b.drop n) → At S T ⟨h, b.drop n, w⟩ (k (leAt 0 n b)) V E) :
    At S T ⟨h, b, w⟩ (SpanReader.uint n >>= k) V E := by
  refine (at_uint hT.int_short).bind ?_
  rintro v c ⟨hlen, rfl, rfl⟩
  exact hk (hT.int hlen)

theorem at_string (hshort : ¬ holdsString b → ¬ T.enough) :
    At S T ⟨h, b, w⟩ SpanReader.string (fun s c => holdsString b ∧ s = stringAt b ∧
      c = ⟨h, b.drop (2 + stringLength b), w⟩) E := by
  refine (at_uint fun hlt => hshort ?_).bind ?_
  · rw [holdsString_iff]
    omega
  rintro v c ⟨hlen, rfl, rfl⟩
  refine (at_read fun hlt => hshort ?_).bind ?_
  · rw [List.length_drop] at hlt
    rw [holdsString_iff, stringLength]
    omega
  rintro s c ⟨hle, rfl, rfl⟩
  refine Action.spec_pure fun _ hc => ⟨?_, rfl, ?_⟩
  · rw [List.length_drop] at hle
    rw [holdsString_iff, stringLength]
    omega
  · rw [hc, List.drop_drop]
    rfl

theorem string_then {k : Bytes → Op Context β} (hT : T.Reads (.string :: fields) b)
    (hk : T.Reads fields (b.drop (2 + stringLength b)) →
      At S T ⟨h, b.drop (2 + stringLength b), w⟩ (k (stringAt b)) V E) :
    At S T ⟨h, b, w⟩ (SpanReader.string >>= k) V E := by
  refine (at_string hT.string_short).bind ?_
  rintro s c ⟨hstring, rfl, rfl⟩
  exact hk (hT.string hstring)

theorem Terms.Reads.data_short (hT : T.Reads (.data :: fields) b)
    (hlt : b.length < 4 ∨ b.length < 4 + leAt 0 4 b) : ¬ T.enough := by
  intro henough
  have := hT.2 henough
  simp only [holds, Bool.and_eq_true, decide_eq_true_eq] at this
  omega

theorem data_then {k : Bytes → Op Context β} (hT : T.Reads (.data :: fields) b)
    (hk : T.Reads fields (b.drop (4 + leAt 0 4 b)) →
      At S T ⟨h, b.drop (4 + leAt 0 4 b), w⟩ (k ((b.drop 4).take (leAt 0 4 b))) V E) :
    At S T ⟨h, b, w⟩ (SpanReader.uint 4 >>= fun count => SpanReader.read count >>= k) V E := by
  refine (at_uint fun hlt => hT.data_short (.inl hlt)).bind ?_
  rintro v c ⟨hlen, rfl, rfl⟩
  refine (at_read fun hlt => hT.data_short (.inr ?_)).bind ?_
  · rw [List.length_drop] at hlt
    omega
  rintro s c ⟨hle, rfl, rfl⟩
  rw [List.length_drop] at hle
  rw [List.drop_drop]
  refine hk ?_
  have hlong : 4 + leAt 0 4 b ≤ b.length := by omega
  simpa [Terms.Reads, holds, hlen, hlong] using hT

theorem failed_unchanged {e : Int} {c : Context} (hneeded : T.needed) (he : S.errors e)
    (hc : T.view c.handler = T.view h) : T.Failed S h e c :=
  ⟨hneeded, he, Terms.heirs_of_view hc, fun _ => hc⟩

theorem done_empty {h' : Handler} (hT : T.needed) (hheirs : T.Heirs h h') (hw : w.written = [])
    (ht : replyFields t = []) : T.Done h t () ⟨h', b, w⟩ := by
  refine ⟨hT, hheirs, .inr ⟨?_, ?_⟩⟩
  · rw [ht]
    exact hw
  · rw [hw]
    exact le_trans (by decide) h'.size_ge

theorem returns_then {m : Op Context α} {A : α → Prop} {k : α → Op Context β} {c : Context}
    (hm : Returns S .server m A) (hT : T.needed) (hc : T.view c.handler = T.view h)
    (hk : ∀ a, A a → At S T c (k a) V (T.Failed S h)) :
    At S T c (m >>= k) V (T.Failed S h) :=
  hm.then hk (fun _ he => failed_unchanged hT he hc) fun _ hR => hR

theorem returns_done {m : Op Context Unit} (hm : Returns S .server m fun _ => True) (hT : T.needed)
    (hw : w.written = []) (ht : replyFields t = []) :
    At S T ⟨h, b, w⟩ m (T.Done h t) (T.Failed S h) := by
  refine (hm _).mono (fun _ h => h) ?_ (fun _ _ he => failed_unchanged hT he.2 (he.1 ▸ rfl)) ?_
  · rintro _ _ ⟨rfl, -⟩
    exact done_empty hT Terms.heirs_refl hw ht
  · rintro x _ ⟨rfl, hR⟩
    exact hR

theorem name_then {k : Bytes → Op Context β} (hT : T.Reads (.name :: fields) b)
    (hk : isName (stringAt b) → T.Reads fields (b.drop (2 + stringLength b)) →
      At S T ⟨h, b.drop (2 + stringLength b), w⟩ (k (stringAt b)) V (T.Failed S h)) :
    At S T ⟨h, b, w⟩ (SpanReader.name >>= k) V (T.Failed S h) := by
  refine At.bind (A := fun s c => (holdsString b ∧ isName (stringAt b)) ∧ s = stringAt b ∧
    c = ⟨h, b.drop (2 + stringLength b), w⟩) ?_ ?_
  · refine (at_string hT.name_short).bind ?_
    rintro s c ⟨hstring, rfl, rfl⟩
    refine .ite (fun hname => Action.spec_pure fun _ hc => ⟨⟨hstring, hname⟩, rfl, hc⟩) fun hname => ?_
    refine Action.spec_throw ?_
    rintro _ rfl
    exact failed_unchanged (hT.name_refused hstring hname) (S.own _ (by decide)) rfl
  · rintro s c ⟨⟨hstring, hname⟩, rfl, rfl⟩
    exact hk hname (hT.name hstring hname)

theorem nameCount_then {k : Nat → Op Context β} (hT : T.Reads [.names] b)
    (hk : T.Reads (List.replicate (leAt 0 2 b) .name) (b.drop 2) →
      At S T ⟨h, b.drop 2, w⟩ (k (leAt 0 2 b)) V E) :
    At S T ⟨h, b, w⟩ (SpanReader.uint 2 >>= k) V E := by
  have hholds : holds [.names] b = (decide (2 ≤ b.length) && holdsNames (leAt 0 2 b) (b.drop 2)) := rfl
  rw [Terms.Reads, hholds, holdsNames_eq, Bool.and_eq_true, decide_eq_true_eq] at hT
  refine (at_uint fun hlt henough => ?_).bind ?_
  · exact absurd (hT.2 henough).1 (by omega)
  · rintro v c ⟨hlen, rfl, rfl⟩
    exact hk ⟨fun hnames => hT.1 ⟨hlen, hnames⟩, fun henough => (hT.2 henough).2⟩

theorem at_names {n : Nat} (hT : T.Reads (List.replicate n .name) b) :
    At S T ⟨h, b, w⟩ (SpanReader.names n)
      (fun l c => (l.length = n ∧ T.needed) ∧ ∃ b', c = ⟨h, b', w⟩) (T.Failed S h) := by
  induction n generalizing b with
  | zero => exact Action.spec_pure fun _ hc => ⟨⟨rfl, hT.needed⟩, b, hc⟩
  | succ n ih =>
    refine name_then hT fun _ hT => (ih hT).bind ?_
    rintro l _ ⟨⟨hl, hneeded⟩, b', rfl⟩
    exact Action.spec_pure fun _ hc => ⟨⟨congrArg (· + 1) hl, hneeded⟩, b', hc⟩

/-! ## Fids -/

theorem lookup_then {k : Fid → Op Context β} {fid : Nat} (hT : T.needed)
    (hk : ∀ item, h.fids fid = some item → At S T ⟨h, b, w⟩ (k item) V (T.Failed S h)) :
    At S T ⟨h, b, w⟩ (lookupFid fid >>= k) V (T.Failed S h) := by
  refine At.bind (A := fun item c => h.fids fid = some item ∧ c = ⟨h, b, w⟩) (.get_then ?_) ?_
  · cases hfid : h.fids fid with
    | some item => exact Action.spec_pure fun _ hc => ⟨rfl, hc⟩
    | none =>
      refine Action.spec_throw ?_
      rintro _ rfl
      exact failed_unchanged hT (S.own _ (by decide)) rfl
  · rintro item c ⟨hfid, rfl⟩
    exact hk item hfid

theorem at_lookupFile {fid : Nat} {error : Int} (hT : T.needed) (herror : S.errors error) :
    At S T ⟨h, b, w⟩ (lookupFile fid error)
      (fun f c => h.fids fid = some (.file f) ∧ c = ⟨h, b, w⟩) (T.Failed S h) := by
  refine lookup_then hT fun item hfid => ?_
  cases item with
  | file f =>
    refine ((throws_pure (A := fun g => g = f) rfl).returns _).mono (fun _ h => h) ?_
      (fun e _ he => failed_unchanged hT he.2 (he.1 ▸ rfl)) ?_
    · rintro _ _ ⟨rfl, rfl⟩
      exact ⟨hfid, rfl⟩
    · rintro x _ ⟨rfl, hR⟩
      exact hR
  | xattr x =>
    refine ((throws_throw (A := fun _ => False) herror).returns _).mono (fun _ h => h)
      (fun _ _ h => h.2.elim) (fun e _ he => failed_unchanged hT he.2 (he.1 ▸ rfl)) ?_
    rintro x _ ⟨rfl, hR⟩
    exact hR

theorem file_then {k : File → Op Context β} {fid : Nat} {error : Int} (hT : T.needed)
    (herror : S.errors error)
    (hk : ∀ f, h.fids fid = some (.file f) → At S T ⟨h, b, w⟩ (k f) V (T.Failed S h)) :
    At S T ⟨h, b, w⟩ (lookupFile fid error >>= k) V (T.Failed S h) := by
  refine (at_lookupFile hT herror).bind ?_
  rintro f c ⟨hfid, rfl⟩
  exact hk f hfid

theorem pair_then {k : File × File → Op Context β} {fid1 fid2 : Nat} (hT : T.needed)
    (hk : ∀ f g, h.fids fid1 = some (.file f) →
      At S T ⟨h, b, w⟩ (k (f, g)) V (T.Failed S h)) :
    At S T ⟨h, b, w⟩ (lookupFilePair fid1 fid2 >>= k) V (T.Failed S h) := by
  refine At.bind (A := fun p c => h.fids fid1 = some (.file p.1) ∧ c = ⟨h, b, w⟩) ?_ ?_
  · refine lookup_then hT fun item1 hfid1 => lookup_then hT fun item2 hfid2 => ?_
    have hasFile (item : Fid) : Throws S .server (item.asFile einval) fun f => item = .file f := by
      cases item with
      | file f => exact throws_pure rfl
      | xattr x => exact throws_own (by decide)
    refine returns_then (hasFile item1).returns hT rfl fun f hf => ?_
    refine returns_then (hasFile item2).returns hT rfl fun g hg => Action.spec_pure ?_
    rintro _ rfl
    exact ⟨hf ▸ hfid1, rfl⟩
  · rintro ⟨f, g⟩ c ⟨hfid, rfl⟩
    exact hk f g hfid

theorem at_emplace {h₀ : Handler} {fid : Nat} {item : Fid} (hT : T.needed)
    (hview : T.view h = T.view h₀) : At S T ⟨h, b, w⟩ (emplaceFid fid item)
      (fun _ c => h.fids fid = none ∧ c = ⟨h.setFid fid (some item), b, w⟩) (T.Failed S h₀) := by
  refine .get_then ?_
  cases hfid : h.fids fid with
  | none => exact Action.spec_modify fun c hc => ⟨rfl, hc ▸ rfl⟩
  | some item' =>
    refine Action.spec_throw ?_
    rintro _ rfl
    exact failed_unchanged hT (S.own _ (by decide)) hview

theorem emplace_then {k : Unit → Op Context β} {h₀ : Handler} {fid : Nat} {item : Fid} (hT : T.needed)
    (hview : T.view h = T.view h₀)
    (hk : h.fids fid = none →
      At S T ⟨h.setFid fid (some item), b, w⟩ (k ()) V (T.Failed S h₀)) :
    At S T ⟨h, b, w⟩ (emplaceFid fid item >>= k) V (T.Failed S h₀) := by
  refine (at_emplace hT hview).bind ?_
  rintro _ _ ⟨hfid, rfl⟩
  exact hk hfid

theorem onFid_then {m : Op Fid α} {k : α → Op Context β} {fid : Nat} {item : Fid}
    {A : α → Fid → Prop} {B : Int → Fid → Prop}
    (hm : Action.Spec (S.interface .server) (fun i => i = item) m A B (Terminates S .server))
    (hB : ∀ e i, B e i → T.Failed S h e ⟨h.setFid fid (some i), b, w⟩)
    (hk : ∀ a i, A a i → At S T ⟨h.setFid fid (some i), b, w⟩ (k a) V (T.Failed S h)) :
    At S T ⟨h, b, w⟩ (onFid fid item m >>= k) V (T.Failed S h) := by
  refine At.bind (A := fun a c => ∃ i, A a i ∧ c = ⟨h.setFid fid (some i), b, w⟩) (.zoom ?_) ?_
  · rintro _ rfl
    refine hm.mono (fun _ hi => hi) (fun a i ha => ⟨i, ha, rfl⟩) (fun e i he => hB e i he) ?_
    rintro x i ⟨rfl, hR⟩
    exact hR
  · rintro a c ⟨i, ha, rfl⟩
    exact hk a i ha

theorem onFile_then {m : Op File α} {k : α × File → Op Context β} {file : File} {c : Context}
    {A : α → File → Prop} (hT : T.needed) (hc : T.view c.handler = T.view h)
    (hm : Action.Spec (S.interface .server) (fun f => f = file) m A (fun e _ => S.errors e)
      (Terminates S .server))
    (hk : ∀ a f, A a f → At S T c (k (a, f)) V (T.Failed S h)) :
    At S T c (onFile file m >>= k) V (T.Failed S h) := by
  refine At.bind (A := fun p c' => A p.1 p.2 ∧ c' = c) (.withState ?_) ?_
  · rintro _ rfl
    refine hm.mono (fun _ hi => hi) (fun a f ha => ⟨ha, rfl⟩)
      (fun e _ he => failed_unchanged hT he hc) ?_
    rintro x f ⟨rfl, hR⟩
    exact hR
  · rintro ⟨a, f⟩ _ ⟨ha, rfl⟩
    exact hk a f ha

theorem spec_fidOnFile {m : Op File α} (item : Fid) {A : File → α → File → Prop}
    {B : File → Int → File → Prop}
    (hm : ∀ f, item = .file f →
      Action.Spec (S.interface .server) (fun g => g = f) m (A f) (B f) (Terminates S .server)) :
    Action.Spec (S.interface .server) (fun i => i = item) (Fid.onFile m)
      (fun a i => ∃ f g, item = .file f ∧ A f a g ∧ i = .file g)
      (fun e i => (∃ f g, item = .file f ∧ B f e g ∧ i = .file g) ∨ S.errors e ∧ i = item)
      (Terminates S .server) := by
  refine .get_then ?_
  cases item with
  | xattr x => exact Action.spec_throw fun _ hi => .inr ⟨S.own _ (by decide), hi⟩
  | file f =>
    refine .zoom ?_
    rintro _ rfl
    exact (hm f rfl).mono (fun _ hg => hg) (fun a g ha => ⟨f, g, rfl, ha, rfl⟩)
      (fun e g he => .inl ⟨f, g, rfl, he, rfl⟩) fun _ _ hx => hx

theorem failed_setFid {e : Int} {fid : Nat} {item item' : Fid} (hT : T.needed) (he : S.errors e)
    (hfid : h.fids fid = some item) (hsee : T.see item' = T.see item) :
    T.Failed S h e ⟨h.setFid fid (some item'), b, w⟩ :=
  failed_unchanged hT he (Terms.view_setFid hfid hsee)

end Reading

/-! ## Writing -/

section Writing

/-- Fields and a part of the next one were written to the response, and there is room for more. -/
def Wrote (h : Handler) (fields : List Field) (part : Bytes) (room : Nat) (c : Context) : Prop :=
  c.handler = h ∧ (∃ s, c.response.written = s ++ part ∧ Spells fields s) ∧
    headerSize + c.response.written.length + room ≤ c.response.size ∧
      headerSize + c.response.written.length + room ≤ h.negotiatedSize

/-- A part of a handler that writes the response. -/
abbrev Writes (S : Setting) (T : Terms) (h : Handler) (fields : List Field) (room : Nat)
    (m : Op Context β) (V : β → Context → Prop) (E : Int → Context → Prop) : Prop :=
  Action.Spec (S.interface .server) (Wrote h fields [] room) m V E (T.Stuck S)

/-- `EnsureSize` finds room for so many bytes, or makes it. -/
def Fits (h : Handler) (w : MessageResponse) (size : Nat) : Prop :=
  size ≤ h.negotiatedSize ∧ (size ≤ w.size ∨ w.allowResize)

theorem ensureFits_then {k : Unit → Op Context β} {extra : Nat} (hw : w.written = [])
    (hfail : ¬ Fits h w (getMessageSize t + extra) → E einval ⟨h, b, w⟩)
    (hk : Fits h w (getMessageSize t + extra) →
      Writes S T h [] (getMessageSize t + extra - headerSize) (k ()) V E) :
    At S T ⟨h, b, w⟩ (ensureSize t extra >>= k) V E := by
  have hsize := headerSize_le t extra
  have hthrow (hno : ¬ Fits h w (getMessageSize t + extra)) :
      At S T ⟨h, b, w⟩ (Action.throw einval : Op Context Unit) (fun _ c =>
        Fits h w (getMessageSize t + extra) ∧
          Wrote h [] [] (getMessageSize t + extra - headerSize) c) E := by
    refine Action.spec_throw ?_
    rintro _ rfl
    exact hfail hno
  have hroom {w' : MessageResponse} (hw' : w'.written = []) (hsize' : getMessageSize t + extra ≤ w'.size)
      (hle : getMessageSize t + extra ≤ h.negotiatedSize) :
      Wrote h [] [] (getMessageSize t + extra - headerSize) ⟨h, b, w'⟩ := by
    refine ⟨rfl, ⟨[], hw', rfl⟩, ?_, ?_⟩
    · simp only [hw', List.length_nil]
      omega
    · simp only [hw', List.length_nil]
      omega
  refine At.bind (A := fun _ c => Fits h w (getMessageSize t + extra) ∧
    Wrote h [] [] (getMessageSize t + extra - headerSize) c) (.get_then ?_) fun _ c hc =>
      (hk hc.1).pre fun _ h' => h' ▸ hc.2
  refine .ite (fun hlt => hthrow fun h' => Nat.not_le_of_lt hlt h'.1) fun hnegotiated => ?_
  have hle : getMessageSize t + extra ≤ h.negotiatedSize := Nat.le_of_not_lt hnegotiated
  refine .ite (fun hlt => .ite (fun hfixed => hthrow fun h' => ?_) fun hresize =>
    Action.spec_modify ?_) fun hfits => Action.spec_pure ?_
  · exact h'.2.elim (fun h'' => Nat.not_le_of_lt hlt h'') hfixed
  · rintro _ rfl
    exact ⟨⟨hle, .inr (not_not.mp hresize)⟩, hroom rfl le_rfl hle⟩
  · rintro _ rfl
    have hsize' : getMessageSize t + extra ≤ w.size := Nat.le_of_not_lt hfits
    exact ⟨⟨hle, .inl hsize'⟩, hroom hw hsize' hle⟩

theorem ensureSize_then {k : Unit → Op Context β} {extra : Nat} (hw : w.written = [])
    (hfail : h.negotiatedSize < getMessageSize t + extra ∨ w.size < getMessageSize t + extra →
      E einval ⟨h, b, w⟩)
    (hk : Writes S T h [] (getMessageSize t + extra - headerSize) (k ()) V E) :
    At S T ⟨h, b, w⟩ (ensureSize t extra >>= k) V E := by
  refine ensureFits_then hw (fun hno => hfail ?_) fun _ => hk
  by_contra hle
  obtain ⟨hnegotiated, hsize⟩ := not_or.mp hle
  exact hno ⟨Nat.le_of_not_lt hnegotiated, .inl (Nat.le_of_not_lt hsize)⟩

theorem ensureRoom_then {k : Unit → Op Context β} {extra room : Nat} (hw : w.written = [])
    (hsize : headerSize + room ≤ w.size) (hnegotiated : headerSize + room ≤ h.negotiatedSize)
    (hroom : getMessageSize t + extra ≤ headerSize + room)
    (hk : Writes S T h [] room (k ()) V E) :
    At S T ⟨h, b, w⟩ (ensureSize t extra >>= k) V E := by
  have hle : ¬ h.negotiatedSize < getMessageSize t + extra := by omega
  have hfits : ¬ w.size < getMessageSize t + extra := by omega
  refine At.bind (A := fun _ c => c = ⟨h, b, w⟩) (.get_then ?_) ?_
  · refine .ite (fun hlt => absurd hlt hle) fun _ => .ite (fun hlt => absurd hlt hfits) fun _ => ?_
    exact Action.spec_pure fun _ hc => hc
  · rintro _ _ rfl
    refine hk.pre ?_
    rintro _ rfl
    exact ⟨rfl, ⟨[], hw, rfl⟩, by simpa [hw] using hsize, by simpa [hw] using hnegotiated⟩

variable {fields : List Field} {room : Nat}

theorem Wrote.mono {part : Bytes} {room' : Nat} {c : Context} (hc : Wrote h fields part room c)
    (hle : room' ≤ room) : Wrote h fields part room' c := by
  obtain ⟨hhandler, hwritten, hsize, hnegotiated⟩ := hc
  exact ⟨hhandler, hwritten, by omega, by omega⟩

theorem Wrote.close {part : Bytes} {f : Field} {c : Context} (hc : Wrote h fields part room c)
    (hf : f.IsSpelled part) : Wrote h (fields ++ [f]) [] room c := by
  obtain ⟨hhandler, ⟨s, hs, hspells⟩, hroom⟩ := hc
  refine ⟨hhandler, ⟨s ++ part, ?_, spells_append hspells (spells_singleton hf)⟩, hroom⟩
  rw [hs, List.append_nil]

theorem spec_write {part data : Bytes} (hroom : data.length ≤ room) :
    Action.Spec (S.interface .server) (Wrote h fields part room) (SpanWriter.write data)
      (fun _ => Wrote h fields (part ++ data) (room - data.length)) E (T.Stuck S) := by
  refine Action.spec_of_state fun c hc => .get_then ?_
  obtain ⟨hhandler, ⟨s, hs, hspells⟩, hsize, hnegotiated⟩ := hc
  have hfits : headerSize + (c.response.written ++ data).length ≤ c.response.size := by
    rw [List.length_append]
    omega
  rw [MessageResponse.next, dif_pos hfits]
  refine Action.spec_modify ?_
  rintro _ rfl
  refine ⟨hhandler, ⟨s, by simp only [hs, List.append_assoc], hspells⟩, ?_, ?_⟩
  · simp only [List.length_append]
    omega
  · simp only [List.length_append]
    omega

theorem writes_field {f : Field} {data : Bytes} {n : Nat} (hf : f.IsSpelled data)
    (hlen : data.length = n) (hroom : n ≤ room) :
    Writes S T h fields room (SpanWriter.write data)
      (fun _ => Wrote h (fields ++ [f]) [] (room - n)) E :=
  (spec_write (hlen ▸ hroom)).post fun _ _ hc => (hc.close hf).mono (hlen ▸ le_rfl)

theorem write_then {f : Field} {data : Bytes} {n : Nat} {k : Unit → Op Context β}
    (hf : f.IsSpelled data) (hlen : data.length = n) (hroom : n ≤ room)
    (hk : Writes S T h (fields ++ [f]) (room - n) (k ()) V E) :
    Writes S T h fields room (SpanWriter.write data >>= k) V E :=
  (writes_field hf hlen hroom).bind fun _ => hk

theorem spelled_uint (n v : Nat) : Field.IsSpelled (.int n) (leBytes n v) := length_leBytes n v

theorem spelled_qid (qid : Qid) : Field.IsSpelled (.int qidSize) (qidBytes qid) := length_qidBytes qid

theorem putUint_then {n v : Nat} {k : Unit → Op Context β} (hroom : n ≤ room)
    (hk : Writes S T h (fields ++ [.int n]) (room - n) (k ()) V E) :
    Writes S T h fields room (SpanWriter.uint n v >>= k) V E :=
  write_then (spelled_uint n v) (length_leBytes n v) hroom hk

theorem putQid_then {qid : Qid} {k : Unit → Op Context β} (hroom : qidSize ≤ room)
    (hk : Writes S T h (fields ++ [.int qidSize]) (room - qidSize) (k ()) V E) :
    Writes S T h fields room (SpanWriter.write (qidBytes qid) >>= k) V E :=
  write_then (spelled_qid qid) (length_qidBytes qid) hroom hk

theorem Wrote.done {h₀ h' : Handler} {c : Context} (hc : Wrote h fields [] room c) (hT : T.needed)
    (hheirs : T.Heirs h₀ h') (hsize : h'.negotiatedSize = h.negotiatedSize)
    (ht : fields = replyFields t) : T.Done h₀ t () { c with handler := h' } := by
  obtain ⟨-, ⟨s, hs, hspells⟩, -, hnegotiated⟩ := hc
  refine ⟨hT, hheirs, .inr ⟨?_, ?_⟩⟩
  · rw [hs, List.append_nil, ← ht]
    exact hspells
  · change headerSize + c.response.written.length ≤ h'.negotiatedSize
    omega

theorem Wrote.done_self {h₀ : Handler} {c : Context} (hc : Wrote h fields [] room c) (hT : T.needed)
    (hheirs : T.Heirs h₀ h) (ht : fields = replyFields t) : T.Done h₀ t () c := by
  obtain ⟨h', b', w'⟩ := c
  obtain rfl : h' = h := hc.1
  exact hc.done hT hheirs rfl ht

theorem putUint_done {h₀ : Handler} {n v : Nat} (hT : T.needed) (hheirs : T.Heirs h₀ h)
    (hroom : n ≤ room) (ht : fields ++ [.int n] = replyFields t) :
    Writes S T h fields room (SpanWriter.uint n v) (T.Done h₀ t) E :=
  (writes_field (spelled_uint n v) (length_leBytes n v) hroom).post fun _ _ hc =>
    hc.done_self hT hheirs ht

theorem putQid_done {h₀ : Handler} {qid : Qid} (hT : T.needed) (hheirs : T.Heirs h₀ h)
    (hroom : qidSize ≤ room) (ht : fields ++ [.int qidSize] = replyFields t) :
    Writes S T h fields room (SpanWriter.write (qidBytes qid)) (T.Done h₀ t) E :=
  (writes_field (spelled_qid qid) (length_qidBytes qid) hroom).post fun _ _ hc =>
    hc.done_self hT hheirs ht

theorem writes_counted {f : Field} {n len : Nat} {data : Bytes}
    (hf : f.IsSpelled (leBytes n len ++ data)) (hroom : n + data.length ≤ room) :
    Writes S T h fields room (SpanWriter.uint n len >>= fun _ => SpanWriter.write data)
      (fun _ => Wrote h (fields ++ [f]) [] (room - (n + data.length))) E := by
  refine (spec_write (T := T) ?_).bind fun _ => (spec_write ?_).post fun _ c hc => ?_
  · rw [length_leBytes]
    omega
  · rw [length_leBytes]
    omega
  · refine (hc.close hf).mono ?_
    rw [length_leBytes]
    omega

theorem writes_string {s : Bytes} (hs : s.length < 2 ^ 16) (hroom : 2 + s.length ≤ room) :
    Writes S T h fields room (SpanWriter.string s)
      (fun _ => Wrote h (fields ++ [.string]) [] (room - (2 + s.length))) E := by
  refine .ite (fun hlt => by omega) fun _ => ?_
  exact writes_counted ⟨s, hs, rfl⟩ hroom

theorem peek_then {count : Nat} {k : Unit → Op Context β} (hroom : count ≤ room)
    (hk : Writes S T h fields room (k ()) V E) :
    Writes S T h fields room (SpanWriter.peek count >>= k) V E := by
  refine Action.Spec.bind (V := fun _ => Wrote h fields [] room) ?_ fun _ => hk
  refine Action.spec_of_state fun c hc => .get_then (.ite (fun hlt => ?_) fun _ => ?_)
  · have hsize := hc.2.2.1
    rw [MessageResponse.remaining] at hlt
    omega
  · exact Action.spec_pure fun _ hc' => hc' ▸ hc

theorem writes_returns_then {m : Op Context α} {A : α → Prop} {k : α → Op Context β}
    (hm : Returns S .server m A) (hT : T.needed)
    (hk : ∀ a, A a → Writes S T h fields room (k a) V (T.Failed S h)) :
    Writes S T h fields room (m >>= k) V (T.Failed S h) :=
  Action.spec_of_state fun _ hc => returns_then hm hT (congrArg T.view hc.1) fun a ha =>
    (hk a ha).pre fun _ hc' => hc' ▸ hc

theorem write_overrun {data : Bytes} (hT : T.needed) (hover : T.overrun) :
    Action.Spec (S.interface .server) (fun c => T.Heirs h c.handler) (SpanWriter.write data)
      (fun u c => T.Done h t u c ∧ T.Heirs h c.handler) E (T.Stuck S) := by
  refine Action.spec_of_state fun c hc => .get_then ?_
  cases c.response.next data with
  | none => exact Action.spec_halt fun _ _ => hover
  | some response => exact Action.spec_modify fun _ h' => h' ▸ ⟨⟨hT, hc, .inl hover⟩, hc⟩

theorem counted_overrun {n len : Nat} {data : Bytes} (hT : T.needed) (hover : T.overrun) :
    Action.Spec (S.interface .server) (fun c => T.Heirs h c.handler)
      (SpanWriter.uint n len >>= fun _ => SpanWriter.write data) (T.Done h t) E (T.Stuck S) :=
  (write_overrun (t := t) hT hover).bind fun _ => ((write_overrun hT hover).pre fun _ h => h.2).post
    fun _ _ h => h.1

theorem string_overrun {s : Bytes} (hT : T.needed) (hover : T.overrun) :
    Action.Spec (S.interface .server) (fun c => T.Heirs h c.handler) (SpanWriter.string s)
      (T.Done h t) E (T.Stuck S) :=
  .ite (fun _ => Action.spec_halt fun _ _ => hover) fun _ => counted_overrun hT hover

theorem Wrote.heirs {part : Bytes} {c : Context} (hc : Wrote h fields part room c) :
    T.Heirs h c.handler := hc.1 ▸ Terms.heirs_refl

end Writing

end WslFreeBSD.Plan9
