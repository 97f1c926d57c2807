import WslFreeBSD.Plan9.Confinement
import WslFreeBSD.Plan9.Events

/-!
# The paths of files

The path of a file has no `/` at its end, whatever requests are handled: it begins as the empty path, and only
names are put behind it. `Retains` is the triple of what keeps an invariant of its state for all answers of the
system, whether it returns, throws or halts.
-/

namespace WslFreeBSD.Plan9

open Lib

def anyCalls : Action.Interface Syscall Syscall.Answer := .calling (fun _ _ => True) fun _ => True

/-- An action keeps an invariant of its state, and its value is in `V`. -/
abbrev Retains {κ η σ α : Type} (I : σ → Prop) (m : Action Syscall Syscall.Answer κ η σ α) (V : α → Prop) :
    Prop :=
  Action.Spec anyCalls I m (fun a s => I s ∧ V a) (fun _ s => I s) fun _ s => I s

section Rules

variable {κ η σ α β : Type} {I : σ → Prop} {m : Action Syscall Syscall.Answer κ η σ α} {V V' : α → Prop}
  {f : α → Action Syscall Syscall.Answer κ η σ β} {W : β → Prop}

theorem retains_pure {a : α} (h : V a) : Retains I (pure a : Action Syscall Syscall.Answer κ η σ α) V :=
  Action.spec_pure fun _ hs => ⟨hs, h⟩

theorem retains_throw {e : κ} : Retains I (Action.throw e : Action Syscall Syscall.Answer κ η σ α) V :=
  Action.spec_throw fun _ hs => hs

theorem retains_halt {x : η} : Retains I (Action.halt x : Action Syscall Syscall.Answer κ η σ α) V :=
  Action.spec_halt fun _ hs => hs

theorem Retains.bind (hm : Retains I m V) (hf : ∀ a, V a → Retains I (f a) W) : Retains I (m >>= f) W :=
  Action.Spec.bind hm fun a s hs => hf a hs.2 s hs.1

theorem Retains.ite {c : Prop} [Decidable c] {n : Action Syscall Syscall.Answer κ η σ α}
    (hm : c → Retains I m V) (hn : ¬ c → Retains I n V) : Retains I (if c then m else n) V :=
  Action.Spec.ite hm hn

theorem Retains.get_then {f : σ → Action Syscall Syscall.Answer κ η σ β} (h : ∀ s, I s → Retains I (f s) W) :
    Retains I (Action.get >>= f) W :=
  Action.spec_get.bind fun a => Action.spec_of_state fun s hs => by
    obtain ⟨hs, rfl⟩ := hs
    exact (h a hs).pre fun s' hs' => hs' ▸ hs

theorem retains_modify {g : σ → σ} (h : ∀ s, I s → I (g s)) :
    Retains I (Action.modify g : Action Syscall Syscall.Answer κ η σ Unit) fun _ => True :=
  Action.spec_modify fun s hs => ⟨h s hs, trivial⟩

theorem Retains.modify_then {g : σ → σ} {f : Unit → Action Syscall Syscall.Answer κ η σ β}
    (h : ∀ s, I s → I (g s)) (hf : Retains I (f ()) W) : Retains I (Action.modify g >>= f) W :=
  (retains_modify h).bind fun _ _ => hf

theorem retains_embed (m : Action Syscall Syscall.Answer κ Empty Unit α) :
    Retains I (m.embed : Action Syscall Syscall.Answer κ η σ α) fun _ => True := by
  have hm : Action.Spec anyCalls (fun _ => True) m (fun _ _ => True) (fun _ _ => True) fun x _ => x.elim := by
    intro s _
    refine (Program.ensures_true _).mono ?_
    rintro ⟨o, u⟩ t - -
    refine ⟨fun _ _ => trivial, ?_⟩
    cases o with
    | value a => trivial
    | error e => trivial
    | halted x => exact x.elim
  exact (hm.embed I fun _ => I).mono (fun _ h => h) (fun _ _ h => h) (fun _ _ h => h.1) fun _ _ h => h

theorem retains_call (e : Syscall) :
    Retains I (Action.call e : Action Syscall Syscall.Answer κ η σ e.Answer) fun _ => True :=
  (Action.spec_call trivial).post fun _ _ h => ⟨h.1, trivial⟩

end Rules

section Users

variable {σ α : Type} {I : σ → Prop}

theorem retains_leaveUser (root : Root) : Retains I (leaveUser root : Op σ Unit) fun _ => True := by
  refine fun s hs => Action.Meets.bind (Q := fun _ => True) ?_ fun r _ => ?_
  · exact (Program.ensures_true _).mono fun _ _ _ _ => ⟨fun _ _ => trivial, trivial⟩
  · obtain ⟨o, u⟩ := r
    cases o with
    | value a => exact Action.meets_pure ⟨hs, trivial⟩
    | error e => exact Action.meets_pure hs
    | halted x => exact x.elim

theorem Retains.withUser {root : Root} {m : Op σ α} {V : α → Prop} (hm : Retains I m V) :
    Retains I (withUser root m) V := by
  refine (retains_embed _).bind fun _ _ => Action.Spec.andFinally hm (fun a => ?_) fun e => ?_
  · exact fun s hs => (retains_leaveUser root s hs.1).mono fun _ h =>
      h.mono (fun _ _ h' => ⟨h'.1, hs.2⟩) (fun _ _ h' => ⟨h', hs.2⟩) fun _ _ h' => h'
  · exact (retains_leaveUser root).mono (fun _ h => h) (fun _ _ h => h.1) (fun _ _ h => h) fun _ _ h => h

theorem retains_method (root : Root) (m : Calls α) :
    Retains I (withUser root m.embed : Op σ α) fun _ => True := (retains_embed m).withUser

end Users

/-! ## Methods -/

section Methods

variable {f : File} {p name : Bytes}

def File.At (p : Bytes) (f : File) : Prop := f.fileName = p

theorem retains_validateExists : Retains (File.At p) File.validateExists fun _ => True := by
  refine .get_then fun f _ => (retains_embed _).bind fun r _ => ?_
  cases r with
  | error e => exact retains_pure trivial
  | ok st => exact .modify_then (fun _ h => h) (retains_pure trivial)

theorem retains_init : Retains (File.At p) File.init fun _ => True :=
  .get_then fun _ _ => Retains.withUser <| retains_validateExists.bind fun _ _ => (retains_embed _).bind fun _ _ =>
    .get_then fun _ _ => retains_pure trivial

theorem retains_findChild (parentDevice : Nat) :
    Retains (File.At p) (File.findChild parentDevice) fun _ => True := by
  refine retains_validateExists.bind fun r _ => ?_
  cases r with
  | error e => exact retains_pure trivial
  | ok u =>
    refine .get_then fun f _ => .ite (fun _ => ?_) fun _ => retains_pure trivial
    refine (retains_embed _).bind fun _ _ => .ite (fun _ => ?_) fun _ => ?_
    · exact retains_pure trivial
    · exact retains_pure trivial

theorem retains_open (flags : Nat) : Retains (File.At p) (File.open_ flags) fun _ => True := by
  refine .get_then fun f _ => .ite (fun _ => retains_throw) fun _ => Retains.withUser ?_
  exact (retains_embed _).bind fun r _ => (retains_embed _).bind fun fd _ =>
    .modify_then (fun _ h => h) (retains_pure trivial)

theorem retains_enumerate : Retains (File.At p) File.enumerate fun _ => True := by
  refine .get_then fun f _ => ?_
  cases f.state with
  | closed => exact retains_throw
  | enumerator fd offset => exact retains_pure trivial
  | file fd =>
    exact (retains_embed _).bind fun _ _ => .modify_then (fun _ h => h) (retains_pure trivial)

theorem retains_seek (fd offset : Nat) : Retains (File.At p) (File.seek fd offset) fun _ => True := by
  have hmoved {e : Syscall} : Retains (File.At p) (do
      let _ ← Action.call e
      Action.modify fun f => { f with state := .enumerator fd offset } : Op File Unit) fun _ => True :=
    (retains_call e).bind fun _ _ => retains_modify fun _ h => h
  refine .get_then fun f _ => .ite (fun _ => .ite (fun _ => hmoved) fun _ => hmoved) fun _ => ?_
  exact retains_pure trivial

theorem retains_next (fd : Nat) : Retains (File.At p) (File.next fd) fun _ => True := by
  refine (retains_embed _).bind fun r _ => ?_
  cases r with
  | none => exact retains_pure trivial
  | some entry => exact .modify_then (fun _ h => h) (retains_pure trivial)

theorem retains_readEntries (fd : Nat) (includeAttributes : Bool) (room : Nat) (dirEntriesWritten : Bool) :
    Retains (File.At p) (File.readEntries fd includeAttributes room dirEntriesWritten) fun _ => True := by
  induction room using Nat.strong_induction_on generalizing dirEntriesWritten with
  | _ room ih =>
    rw [File.readEntries]
    refine (retains_next fd).bind fun r _ => ?_
    cases r with
    | none => exact retains_pure trivial
    | some entry =>
      have hrest (attributes : Option StatResult) : Retains (File.At p)
          (if (File.directoryEntryBytes entry attributes).length ≤ room then do
            let written ← File.readEntries fd includeAttributes
              (room - (File.directoryEntryBytes entry attributes).length) true
            return File.directoryEntryBytes entry attributes ++ written
          else if dirEntriesWritten then return [] else Action.throw einval) fun _ => True := by
        refine .ite (fun hfits => ?_) fun _ => .ite (fun _ => retains_pure trivial) fun _ => retains_throw
        have hpos := File.length_directoryEntryBytes_pos entry attributes
        exact (ih _ (by omega) true).bind fun _ _ => retains_pure trivial
      refine .ite (fun _ => (retains_embed _).bind fun attributes _ => hrest attributes) fun _ => ?_
      exact (retains_pure (V := fun _ => True) trivial).bind fun attributes _ => hrest attributes

theorem retains_readDir (offset count : Nat) (includeAttributes : Bool) :
    Retains (File.At p) (File.readDir offset count includeAttributes) fun _ => True :=
  retains_enumerate.bind fun _ _ => (retains_seek _ _).bind fun _ _ => retains_readEntries _ _ _ _

theorem Retains.isPath {α : Type} {m : Op File α} {V : α → Prop} (h : ∀ p, Retains (File.At p) m V) :
    Retains (fun f => IsPath f.fileName) m V := by
  intro f hf
  have hsame {g : File} (hg : File.At f.fileName g) : IsPath g.fileName := by
    rwa [show g.fileName = f.fileName from hg]
  refine (h f.fileName f rfl).mono fun _ hend => hend.mono ?_ (fun _ _ => hsame) fun _ _ => hsame
  exact fun _ _ hend => ⟨hsame hend.1, hend.2⟩

theorem retains_create (hname : isName name) (flags mode : Nat) :
    Retains (fun f => IsPath f.fileName) (File.create name flags mode) fun _ => True := by
  refine .get_then fun f _ => .ite (fun _ => retains_pure trivial) fun _ => .ite (fun _ => retains_pure trivial)
    fun _ => Retains.withUser ?_
  refine (retains_embed _).bind fun r _ => ?_
  cases r with
  | error e => exact retains_pure trivial
  | ok r => exact .modify_then (fun _ _ => isPath_appendPath _ hname) (retains_pure trivial)

theorem retains_rename (newParent : File) (hname : isName name) :
    Retains (fun f => IsPath f.fileName) (File.rename newParent name) fun _ => True := by
  refine .get_then fun f _ => .ite (fun _ => retains_throw) fun _ => .ite (fun _ => retains_throw) fun _ =>
    .ite (fun _ => retains_throw) fun _ => Retains.withUser ?_
  exact (retains_embed _).bind fun _ _ => retains_modify fun _ _ => isPath_appendPath _ hname

theorem spec_walk_path (hpath : IsPath f.fileName) (hname : isName name) :
    Action.Spec anyCalls (fun g => g = f) (File.walk name) (fun _ g => IsPath g.fileName) (fun _ _ => True)
      fun _ _ => True := by
  refine .get_then (.ite (fun _ => .modify_then ?_) fun _ => Action.spec_pure fun g hg => hg ▸ hpath)
  intro g hg
  refine Action.Meets.bind ((retains_findChild (p := appendPath f.fileName name) f.device).withUser g
    (congrArg File.fileName hg)) ?_
  rintro ⟨o, g'⟩ hend
  rcases o with (r | e | x)
  · obtain ⟨hg', -⟩ : g'.fileName = appendPath f.fileName name ∧ True := hend
    cases r with
    | ok qid => exact Action.meets_pure (hg' ▸ isPath_appendPath _ hname : IsPath g'.fileName)
    | error e =>
      refine Action.meets_pure (show IsPath (parentPath g'.fileName) from ?_)
      rwa [hg', parentPath_appendPath hpath hname]
  · exact Action.meets_pure trivial
  · exact Action.meets_pure trivial

end Methods

/-! ## Fids -/

theorem isPath_nil : IsPath [] := fun h => by cases h

/-- What a fid denotes has a path, if it is a file. -/
def Fid.Named : Fid → Prop
  | .file f => IsPath f.fileName
  | .xattr _ => True

def Handler.Named (h : Handler) : Prop := ∀ fid item, h.fids fid = some item → item.Named

abbrev Context.Named (c : Context) : Prop := c.handler.Named

theorem Handler.Named.setFid {h : Handler} (hh : h.Named) (fid : Nat) {item : Option Fid}
    (hitem : ∀ i, item = some i → i.Named) : (h.setFid fid item).Named := by
  intro fid' i hi
  change Function.update h.fids fid item fid' = some i at hi
  rw [Function.update_apply] at hi
  split at hi
  · exact hitem i hi
  · exact hh fid' i hi

section Parts

variable {α : Type} {item : Fid} {V : α → Prop}

theorem retains_read (count : Nat) : Retains Context.Named (SpanReader.read count) fun _ => True := by
  refine .get_then fun c _ => .ite (fun _ => retains_halt) fun _ => ?_
  exact .modify_then (fun _ h => h) (retains_pure trivial)

theorem retains_uint (size : Nat) : Retains Context.Named (SpanReader.uint size) fun _ => True :=
  (retains_read size).bind fun _ _ => retains_pure trivial

theorem retains_string : Retains Context.Named SpanReader.string fun _ => True :=
  (retains_uint 2).bind fun _ _ => (retains_read _).bind fun _ _ => retains_pure trivial

theorem retains_name : Retains Context.Named SpanReader.name fun s => isName s := by
  refine retains_string.bind fun s _ => .ite (fun hname => retains_pure hname) fun _ => retains_throw

theorem retains_names (n : Nat) : Retains Context.Named (SpanReader.names n) fun l => ∀ s ∈ l, isName s := by
  induction n with
  | zero => exact retains_pure fun _ h => absurd h List.not_mem_nil
  | succ n ih =>
    exact retains_name.bind fun s hs => ih.bind fun l hl => retains_pure (List.forall_mem_cons.mpr ⟨hs, hl⟩)

theorem retains_write (data : Bytes) : Retains Context.Named (SpanWriter.write data) fun _ => True := by
  refine .get_then fun c _ => ?_
  cases c.response.next data with
  | none => exact retains_halt
  | some response => exact retains_modify fun _ h => h

theorem retains_putString (s : Bytes) : Retains Context.Named (SpanWriter.string s) fun _ => True :=
  .ite (fun _ => retains_halt) fun _ => (retains_write _).bind fun _ _ => retains_write _

theorem retains_peek (count : Nat) : Retains Context.Named (SpanWriter.peek count) fun _ => True :=
  .get_then fun _ _ => .ite (fun _ => retains_halt) fun _ => retains_pure trivial

theorem retains_ensureSize (t : MessageType) (extraSize : Nat) :
    Retains Context.Named (ensureSize t extraSize) fun _ => True :=
  .get_then fun _ _ => .ite (fun _ => retains_throw) fun _ => .ite (fun _ => .ite (fun _ => retains_throw)
    fun _ => retains_modify fun _ h => h) fun _ => retains_pure trivial

theorem retains_setFid (fid : Nat) {item : Option Fid} (hitem : ∀ i, item = some i → i.Named) :
    Retains Context.Named (setFid fid item) fun _ => True :=
  retains_modify fun _ h => h.setFid fid hitem

theorem retains_lookupFid (fid : Nat) : Retains Context.Named (lookupFid fid) Fid.Named := by
  refine .get_then fun c hc => ?_
  cases hfid : c.handler.fids fid with
  | none => exact retains_throw
  | some item => exact retains_pure (hc fid item hfid)

theorem retains_lookupFile (fid : Nat) (error : Int) :
    Retains Context.Named (lookupFile fid error) fun f => IsPath f.fileName := by
  refine (retains_lookupFid fid).bind fun item hitem => ?_
  cases item with
  | file f => exact retains_pure hitem
  | xattr x => exact retains_throw

theorem retains_asFile (hitem : item.Named) (error : Int) :
    Retains Context.Named ((item.asFile error).embed : Op Context File) fun f => IsPath f.fileName := by
  cases item with
  | file f => exact retains_pure hitem
  | xattr x => exact retains_throw

theorem retains_lookupFilePair (fid1 fid2 : Nat) : Retains Context.Named (lookupFilePair fid1 fid2) fun r =>
    IsPath r.1.fileName ∧ IsPath r.2.fileName :=
  (retains_lookupFid fid1).bind fun _ h1 => (retains_lookupFid fid2).bind fun _ h2 =>
    (retains_asFile h1 _).bind fun _ hf1 => (retains_asFile h2 _).bind fun _ hf2 => retains_pure ⟨hf1, hf2⟩

theorem retains_emplaceFid (fid : Nat) {i : Fid} (hitem : i.Named) :
    Retains Context.Named (emplaceFid fid i) fun _ => True := by
  refine .get_then fun c _ => ?_
  cases c.handler.fids fid with
  | some old => exact retains_throw
  | none => exact retains_setFid fid fun _ hi => Option.some.inj hi ▸ hitem

theorem retains_onFid (fid : Nat) {i : Fid} {m : Op Fid α} (hitem : i.Named) (hm : Retains Fid.Named m V) :
    Retains Context.Named (onFid fid i m) V := by
  have hput {i : Fid} (hi : i.Named) {c : Context} (hc : c.Named) :
      (c.handler.setFid fid (some i)).Named := hc.setFid fid fun j hj => Option.some.inj hj ▸ hi
  refine Action.Spec.zoom fun c hc => Action.Spec.mono hm (fun _ h => h ▸ hitem) ?_ ?_ ?_
  · exact fun _ i hi => ⟨hput hi.1 hc, hi.2⟩
  · exact fun _ i hi => hput hi hc
  · exact fun _ i hi => hput hi hc

theorem retains_fidOnFile {m : Op File α} (hm : Retains (fun f => IsPath f.fileName) m V) :
    Retains Fid.Named (Fid.onFile m) V := by
  refine .get_then fun item hitem => ?_
  cases item with
  | xattr x => exact retains_throw
  | file f =>
    exact Action.Spec.zoom fun _ _ => Action.Spec.mono hm (fun _ h => h ▸ hitem) (fun _ _ h => h)
      (fun _ _ h => h) fun _ _ h => h

theorem retains_fidWrite (offset : Nat) (data : Bytes) :
    Retains Fid.Named (Fid.write offset data) fun _ => True := by
  refine .get_then fun item _ => ?_
  cases item with
  | file f => exact retains_embed _
  | xattr x =>
    refine Action.Spec.zoom fun _ _ y _ => (Program.ensures_true _).mono ?_
    rintro ⟨o, s⟩ t - -
    refine ⟨fun _ _ => trivial, ?_⟩
    cases o with
    | value n => exact ⟨trivial, trivial⟩
    | error e => trivial
    | halted h => trivial

theorem retains_onFile {f : File} {m : Op File α} {V : α × File → Prop}
    (hm : Action.Spec anyCalls (fun g => g = f) m (fun a g => V (a, g)) (fun _ _ => True) fun _ _ => True) :
    Retains Context.Named (onFile f m) V :=
  Action.Spec.withState fun _ hc => hm.mono (fun _ h => h) (fun _ _ h => ⟨hc, h⟩) (fun _ _ _ => hc) fun _ _ _ => hc

theorem retains_onFile_path {f : File} {m : Op File α} (hpath : IsPath f.fileName)
    (hm : Retains (fun f => IsPath f.fileName) m V) :
    Retains Context.Named (onFile f m) fun r => IsPath r.2.fileName :=
  retains_onFile (Action.Spec.mono hm (fun _ h => h ▸ hpath) (fun _ _ h => h.1) (fun _ _ _ => trivial)
    fun _ _ _ => trivial)

end Parts

/-! ## Requests -/

section Requests

theorem retains_version : Retains Context.Named handleVersion fun _ => True := by
  refine .get_then fun c _ => .ite (fun _ => retains_throw) fun _ => (retains_uint 4).bind fun size _ =>
    retains_string.bind fun version _ => ?_
  split
  · exact retains_throw
  refine .ite (fun _ => retains_throw) fun _ => .ite (fun _ => retains_throw) fun _ => ?_
  exact .modify_then (fun _ h => h) ((retains_ensureSize _ _).bind fun _ _ => (retains_write _).bind fun _ _ =>
    retains_putString _)

theorem retains_attach : Retains Context.Named handleAttach fun _ => True := by
  refine (retains_uint 4).bind fun fid _ => (retains_uint 4).bind fun _ _ => retains_string.bind fun _ _ =>
    retains_string.bind fun aname _ => (retains_uint 4).bind fun uid _ => .get_then fun c _ =>
    (retains_embed _).bind fun root _ => .modify_then (fun _ h => h) ?_
  have hcreate : Retains Context.Named (createFile root) fun r => IsPath r.1.fileName :=
    (retains_onFile_path isPath_nil (Retains.isPath fun _ => retains_init)).bind fun r hr => retains_pure hr
  exact hcreate.bind fun r hr => (retains_emplaceFid fid (i := .file r.1) hr).bind fun _ _ =>
    (retains_ensureSize _ _).bind fun _ _ => retains_write _

theorem retains_reply {t : MessageType} {extraSize : Nat} {m : Op Context Unit}
    (hm : Retains Context.Named m fun _ => True) :
    Retains Context.Named (ensureSize t extraSize >>= fun _ => m) fun _ => True :=
  (retains_ensureSize _ _).bind fun _ _ => hm

theorem retains_statFs : Retains Context.Named handleStatFs fun _ => True := by
  refine (retains_uint 4).bind fun fid _ => (retains_lookupFile _ _).bind fun f _ => ?_
  refine Retains.bind (V := fun _ => True) ((retains_embed _).bind fun _ _ => retains_method _ _) fun st _ => ?_
  exact retains_reply <| (retains_write _).bind fun _ _ => (retains_write _).bind fun _ _ =>
    (retains_write _).bind fun _ _ => (retains_write _).bind fun _ _ => (retains_write _).bind fun _ _ =>
    (retains_write _).bind fun _ _ => (retains_write _).bind fun _ _ => (retains_write _).bind fun _ _ =>
    retains_write _

theorem retains_getAttr : Retains Context.Named handleGetAttr fun _ => True := by
  refine (retains_uint 4).bind fun fid _ => (retains_uint 8).bind fun mask _ =>
    (retains_lookupFile _ _).bind fun f _ => (retains_method _ _).bind fun r _ => ?_
  exact retains_reply <| (retains_write _).bind fun _ _ => (retains_write _).bind fun _ _ =>
    (retains_write _).bind fun _ _ => (retains_write _).bind fun _ _ => (retains_write _).bind fun _ _ =>
    (retains_write _).bind fun _ _ => retains_write _

theorem retains_walkNames {f : File} (hpath : IsPath f.fileName) {names : List Bytes}
    (hnames : ∀ s ∈ names, isName s) :
    Retains Context.Named (walkNames f names) fun g => IsPath g.fileName := by
  induction names generalizing f with
  | nil => exact retains_pure hpath
  | cons name names ih =>
    obtain ⟨hname, hrest⟩ := List.forall_mem_cons.mp hnames
    refine (retains_onFile (V := fun r => IsPath r.2.fileName) (spec_walk_path hpath hname)).bind fun r hr => ?_
    exact (retains_embed _).bind fun _ _ => (retains_write _).bind fun _ _ => ih hr hrest

theorem retains_walk : Retains Context.Named handleWalk fun _ => True := by
  refine (retains_uint 4).bind fun fid _ => (retains_uint 4).bind fun newfid _ => (retains_uint 2).bind
    fun nameCount _ => (retains_names nameCount).bind fun names hnames => ?_
  refine (retains_lookupFile _ _).bind fun f hf => retains_reply <| (retains_write _).bind fun _ _ => ?_
  exact (retains_walkNames (f := f.clone) hf hnames).bind fun _ hg => retains_emplaceFid _ hg

theorem retains_clunk : Retains Context.Named handleClunk fun _ => True :=
  (retains_uint 4).bind fun _ _ => (retains_lookupFid _).bind fun _ _ =>
    (retains_setFid _ fun _ h => by cases h).bind fun _ _ => retains_embed _

theorem retains_lOpen : Retains Context.Named handleLOpen fun _ => True :=
  (retains_uint 4).bind fun _ _ => (retains_uint 4).bind fun _ _ => (retains_lookupFid _).bind fun _ hitem =>
    (retains_onFid _ hitem (retains_fidOnFile (Retains.isPath fun _ => retains_open _))).bind fun _ _ =>
      retains_reply <| (retains_write _).bind fun _ _ => retains_write _

theorem retains_lCreate : Retains Context.Named handleLCreate fun _ => True :=
  (retains_uint 4).bind fun _ _ => retains_name.bind fun _ hname => (retains_uint 4).bind fun _ _ =>
    (retains_uint 4).bind fun _ _ => (retains_uint 4).bind fun _ _ => (retains_lookupFid _).bind fun _ hitem =>
    (retains_onFid _ hitem (retains_fidOnFile (retains_create hname _ _))).bind fun _ _ =>
      (retains_embed _).bind fun _ _ => retains_reply <| (retains_write _).bind fun _ _ => retains_write _

theorem retains_refused {σ : Type} {I : σ → Prop} {α : Type} {e : Int} {m : Op σ α} {c : Prop} [Decidable c]
    (hm : Retains I m fun _ => True) : Retains I (if c then Action.throw e else m) fun _ => True :=
  .ite (fun _ => retains_throw) fun _ => hm

theorem retains_symLink : Retains Context.Named handleSymLink fun _ => True :=
  (retains_uint 4).bind fun _ _ => retains_name.bind fun _ _ => retains_string.bind fun _ _ =>
    (retains_uint 4).bind fun _ _ => (retains_lookupFile _ _).bind fun _ _ =>
    (retains_refused (retains_method _ _)).bind fun _ _ => retains_reply (retains_write _)

theorem retains_mkNod : Retains Context.Named handleMkNod fun _ => True :=
  (retains_uint 4).bind fun _ _ => retains_name.bind fun _ _ => (retains_uint 4).bind fun _ _ =>
    (retains_uint 4).bind fun _ _ => (retains_uint 4).bind fun _ _ => (retains_uint 4).bind fun _ _ =>
    (retains_lookupFile _ _).bind fun _ _ => (retains_refused (retains_method _ _)).bind fun _ _ =>
    retains_reply (retains_write _)

theorem retains_writeLink (f : File) {onError : Int → Op Context Unit}
    (herror : ∀ e, Retains Context.Named (onError e) fun _ => True) :
    Retains Context.Named (writeLink f onError) fun _ => True := by
  refine (retains_peek 2).bind fun _ _ => .get_then fun c _ => (retains_method _ _).bind fun r _ => ?_
  cases r with
  | ok target => exact (retains_write _).bind fun _ _ => retains_write _
  | error e => exact herror e

theorem retains_readLink : Retains Context.Named handleReadLink fun _ => True :=
  (retains_uint 4).bind fun _ _ => (retains_lookupFile _ _).bind fun _ _ =>
    retains_reply (retains_writeLink _ fun _ => retains_throw)

theorem retains_handleReadDir (includeAttributes : Bool) :
    Retains Context.Named (handleReadDir includeAttributes) fun _ => True := by
  have hbody : Retains Context.Named (handleReadDirBody includeAttributes) fun _ => True :=
    (retains_uint 4).bind fun _ _ => (retains_uint 8).bind fun _ _ => (retains_uint 4).bind fun _ _ =>
      (retains_lookupFid _).bind fun _ hitem => retains_reply <| (retains_peek _).bind fun _ _ =>
      (retains_onFid _ hitem (retains_fidOnFile (Retains.isPath fun _ => retains_readDir _ _ _))).bind fun _ _ =>
        (retains_write _).bind fun _ _ => retains_write _
  exact .get_then fun c _ => .ite (fun _ => retains_throw) fun _ => hbody

theorem retains_fsync : Retains Context.Named handleFsync fun _ => True :=
  (retains_uint 4).bind fun _ _ => (retains_lookupFile _ _).bind fun _ _ => retains_embed _

theorem retains_link : Retains Context.Named handleLink fun _ => True :=
  (retains_uint 4).bind fun _ _ => (retains_uint 4).bind fun _ _ => retains_name.bind fun _ _ =>
    (retains_lookupFilePair _ _).bind fun _ _ => retains_refused (retains_refused (retains_method _ _))

theorem retains_getValue (x : XAttr) (size : Nat) :
    Retains Context.Named (x.getValue size : Op Context _) fun _ => True := retains_method _ _

theorem retains_handleRead : Retains Context.Named handleRead fun _ => True := by
  refine (retains_uint 4).bind fun _ _ => (retains_uint 8).bind fun offset _ => (retains_uint 4).bind fun count _ =>
    (retains_lookupFid _).bind fun item _ => retains_reply <| (retains_peek _).bind fun _ _ => ?_
  have hread : Retains Context.Named (item.read offset count) fun _ => True := by
    cases item with
    | file f => exact retains_embed _
    | xattr x =>
      refine .ite (fun _ => retains_throw) fun _ => (retains_getValue x count).bind fun value _ => ?_
      exact .ite (fun _ => (retains_call _).bind fun _ _ => retains_pure trivial) fun _ => retains_pure trivial
  exact hread.bind fun _ _ => (retains_write _).bind fun _ _ => retains_write _

theorem retains_handleWrite : Retains Context.Named handleWrite fun _ => True :=
  (retains_uint 4).bind fun _ _ => (retains_uint 8).bind fun _ _ => (retains_uint 4).bind fun _ _ =>
    (retains_read _).bind fun _ _ => (retains_lookupFid _).bind fun _ hitem =>
    (retains_onFid _ hitem (retains_fidWrite _ _)).bind fun _ _ => retains_reply (retains_write _)

theorem retains_unlinkAt : Retains Context.Named handleUnlinkAt fun _ => True :=
  (retains_uint 4).bind fun _ _ => retains_name.bind fun _ _ => (retains_uint 4).bind fun _ _ =>
    (retains_lookupFile _ _).bind fun _ _ => retains_refused (retains_method _ _)

theorem retains_remove : Retains Context.Named handleRemove fun _ => True :=
  (retains_uint 4).bind fun _ _ => (retains_lookupFile _ _).bind fun _ _ =>
    retains_refused (retains_refused (retains_method _ _))

theorem retains_renameAt : Retains Context.Named handleRenameAt fun _ => True :=
  (retains_uint 4).bind fun _ _ => retains_name.bind fun _ _ => (retains_uint 4).bind fun _ _ =>
    retains_name.bind fun _ _ => (retains_lookupFilePair _ _).bind fun _ _ =>
    retains_refused (retains_refused (retains_method _ _))

theorem retains_handleRename : Retains Context.Named handleRename fun _ => True :=
  (retains_uint 4).bind fun _ _ => (retains_uint 4).bind fun _ _ => retains_name.bind fun _ hname =>
    (retains_lookupFilePair _ _).bind fun r hr =>
    retains_onFid _ (i := .file r.1) hr.1 (retains_fidOnFile (retains_rename _ hname))

theorem retains_mkDir : Retains Context.Named handleMkDir fun _ => True :=
  (retains_uint 4).bind fun _ _ => retains_name.bind fun _ _ => (retains_uint 4).bind fun _ _ =>
    (retains_uint 4).bind fun _ _ => (retains_lookupFile _ _).bind fun _ _ => (retains_method _ _).bind fun _ _ =>
    (retains_embed _).bind fun _ _ => retains_reply (retains_write _)

theorem retains_setAttr : Retains Context.Named handleSetAttr fun _ => True :=
  (retains_uint 4).bind fun _ _ => (retains_uint 4).bind fun _ _ => (retains_uint 4).bind fun _ _ =>
    (retains_uint 4).bind fun _ _ => (retains_uint 4).bind fun _ _ => (retains_uint 8).bind fun _ _ =>
    (retains_uint 8).bind fun _ _ => (retains_uint 8).bind fun _ _ => (retains_uint 8).bind fun _ _ =>
    (retains_uint 8).bind fun _ _ => (retains_lookupFile _ _).bind fun _ _ => retains_refused (retains_method _ _)

theorem retains_lock : Retains Context.Named handleLock fun _ => True :=
  (retains_uint 4).bind fun _ _ => (retains_uint 1).bind fun _ _ => (retains_uint 4).bind fun _ _ =>
    (retains_uint 8).bind fun _ _ => (retains_uint 8).bind fun _ _ => (retains_uint 4).bind fun _ _ =>
    retains_string.bind fun _ _ => (retains_lookupFile _ _).bind fun _ _ => (retains_embed _).bind fun _ _ =>
    retains_reply (retains_write _)

theorem retains_getLock : Retains Context.Named handleGetLock fun _ => True :=
  (retains_uint 4).bind fun _ _ => (retains_uint 1).bind fun _ _ => (retains_uint 8).bind fun _ _ =>
    (retains_uint 8).bind fun _ _ => (retains_uint 4).bind fun _ _ => retains_string.bind fun _ _ =>
    (retains_lookupFile _ _).bind fun _ _ => (retains_embed _).bind fun _ _ => retains_reply <|
    (retains_write _).bind fun _ _ => (retains_write _).bind fun _ _ => (retains_write _).bind fun _ _ =>
    (retains_write _).bind fun _ _ => retains_putString _

theorem retains_xattrWalk : Retains Context.Named handleXattrWalk fun _ => True := by
  refine (retains_uint 4).bind fun _ _ => (retains_uint 4).bind fun _ _ => retains_string.bind fun _ _ =>
    (retains_lookupFile _ _).bind fun _ _ => (retains_embed _).bind fun x _ => ?_
  refine Retains.bind (V := fun _ => True) ((retains_getValue x 0).bind fun _ _ => retains_pure trivial) fun _ _ => ?_
  exact (retains_emplaceFid _ (i := .xattr x) trivial).bind fun _ _ => retains_reply (retains_write _)

theorem retains_xattrCreate : Retains Context.Named handleXattrCreate fun _ => True :=
  (retains_uint 4).bind fun _ _ => retains_string.bind fun _ _ => (retains_uint 8).bind fun _ _ =>
    (retains_uint 4).bind fun _ _ => (retains_lookupFile _ _).bind fun _ _ => (retains_embed _).bind fun _ _ =>
    retains_setFid _ fun _ h => Option.some.inj h ▸ trivial

theorem retains_access : Retains Context.Named handleAccess fun _ => True :=
  .get_then fun _ _ => .ite (fun _ => retains_throw) fun _ => (retains_uint 4).bind fun _ _ =>
    (retains_uint 4).bind fun _ _ => (retains_lookupFile _ _).bind fun _ _ => retains_method _ _

/-! ### `Twopen` -/

theorem retains_walkParents {f : File} (hpath : IsPath f.fileName) (n walked : Nat) :
    Retains Context.Named (walkParents n walked f) fun r => IsPath r.2.fileName := by
  induction n generalizing walked f with
  | zero => exact retains_pure hpath
  | succ n ih =>
    refine retains_name.bind fun name hname => (retains_onFile (V := fun r => IsPath r.2.fileName)
      (spec_walk_path hpath hname)).bind fun r hr => ?_
    obtain ⟨r, g⟩ := r
    cases r with
    | ok qid => exact ih hr _
    | error e =>
      refine .ite (fun _ => retains_pure hr) fun _ => .ite (fun _ => retains_pure hr) fun _ => retains_throw

theorem retains_createItem {f : File} (hpath : IsPath f.fileName) {name : Bytes} (hname : isName name)
    (flags mode : Nat) (needOpen : Bool) :
    Retains Context.Named (createItem name flags mode needOpen f) fun r => IsPath r.2.2.fileName :=
  .ite (fun _ => (retains_method _ _).bind fun _ _ => retains_pure hpath) fun _ =>
    (retains_onFile_path hpath (retains_create hname _ _)).bind fun _ hr => retains_pure hr

theorem retains_findItem {f : File} (hpath : IsPath f.fileName) {name : Bytes} (hname : isName name)
    (flags mode nameCount retries : Nat) (needOpen : Bool) (entryQid : Qid) :
    Retains Context.Named (findItem name flags mode nameCount retries needOpen entryQid f)
      fun r => IsPath r.2.fileName := by
  induction retries generalizing needOpen f with
  | zero => exact retains_throw
  | succ retries ih =>
    rw [findItem]
    have hcreate {f : File} (hpath : IsPath f.fileName) : Retains Context.Named
        (findCreated name flags mode nameCount retries needOpen entryQid f) fun r => IsPath r.2.fileName := by
      refine .ite (fun _ => ?_) fun _ => retains_pure hpath
      refine (retains_createItem hpath hname flags mode needOpen).bind fun r hr => ?_
      obtain ⟨r, needOpen', g⟩ := r
      cases r with
      | ok qid => exact retains_pure hr
      | error e => exact .ite (fun _ => ih hr true) fun _ => retains_throw
    have hwalk : Retains Context.Named (walkItem name flags f) fun r => IsPath r.2.fileName := by
      refine .ite (fun _ => retains_pure hpath) fun _ => ?_
      exact (retains_onFile (V := fun r => IsPath r.2.fileName) (spec_walk_path hpath hname)).bind fun _ hr =>
        retains_pure hr
    refine hwalk.bind fun r hr => ?_
    obtain ⟨r, g⟩ := r
    rcases r with (_ | (e | qid))
    · exact hcreate hr
    · refine .ite (fun _ => .ite (fun _ => retains_pure hr) fun _ => hcreate hr) fun _ =>
        .ite (fun _ => retains_pure hr) fun _ => retains_throw
    · exact retains_pure hr

theorem retains_writeWOpenReply (status : WOpenStatus) (walked : Nat) (f : File) (mask : Nat) :
    Retains Context.Named (writeWOpenReply status walked f mask) fun _ => True := by
  refine (retains_method _ _).bind fun r _ => retains_reply <| (retains_write _).bind fun _ _ =>
    (retains_write _).bind fun _ _ => (retains_write _).bind fun _ _ => ?_
  have hrest : Retains Context.Named (do
      SpanWriter.uint 4 ioUnit
      SpanWriter.write (statResultBytes r.2.2)
      SpanWriter.uint 8 0
      SpanWriter.uint 8 0
      SpanWriter.uint 8 0
      SpanWriter.uint 8 0) fun _ => True :=
    (retains_write _).bind fun _ _ => (retains_write _).bind fun _ _ => (retains_write _).bind fun _ _ =>
      (retains_write _).bind fun _ _ => (retains_write _).bind fun _ _ => retains_write _
  refine .ite (fun _ => ?_) fun _ => (retains_write _).bind fun _ _ => hrest
  exact (retains_writeLink f fun _ => retains_write _).bind fun _ _ => hrest

theorem retains_finishItem {f : File} (hpath : IsPath f.fileName) (newFid flags wflags mask nameCount : Nat)
    (item : WOpenItem) :
    Retains Context.Named (finishItem newFid flags wflags mask nameCount item f) fun _ => True := by
  refine .ite (fun _ => retains_throw) fun _ => .ite (fun _ => retains_throw) fun _ => ?_
  have hopen : Retains Context.Named (openItem flags item f) fun g => IsPath g.fileName :=
    .ite (fun _ => (retains_onFile_path hpath (Retains.isPath fun _ => retains_open _)).bind fun _ hr =>
      retains_pure hr) fun _ => retains_pure hpath
  have hrest : Retains Context.Named (do
      if item.qid.isSymlink ∧ ¬ anySet wflags WOpenFlags.openSymlink then
        writeWOpenReply .stopped nameCount f mask
      else
        let file ← openItem flags item f
        writeWOpenReply (if item.existed then .opened else .created) nameCount file mask
        emplaceFid newFid (.file file)) fun _ => True :=
    .ite (fun _ => retains_writeWOpenReply _ _ _ _) fun _ => hopen.bind fun g hg =>
      (retains_writeWOpenReply _ _ _ _).bind fun _ _ => retains_emplaceFid newFid (i := .file g) hg
  exact .ite (fun _ => (retains_method _ _).bind fun _ _ => hrest) fun _ => hrest

theorem retains_wopen : Retains Context.Named handleWOpen fun _ => True := by
  refine .get_then fun c _ => .ite (fun _ => retains_throw) fun _ => (retains_uint 4).bind fun _ _ =>
    (retains_uint 4).bind fun newFid _ => (retains_uint 4).bind fun flags _ => (retains_uint 4).bind fun wflags _ =>
    (retains_uint 4).bind fun mode _ => (retains_uint 4).bind fun _ _ => (retains_uint 8).bind fun mask _ =>
    (retains_uint 2).bind fun nameCount _ => (retains_lookupFile _ _).bind fun f hf => ?_
  have hlocate : Retains Context.Named (locateItem flags mode nameCount f.clone) fun r => IsPath r.2.fileName := by
    refine .ite (fun _ => ?_) fun _ => retains_pure hf
    refine (retains_walkParents (f := f.clone) hf _ _).bind fun r hr => ?_
    obtain ⟨r, g⟩ := r
    cases r with
    | error reply => exact retains_pure hr
    | ok u => exact retains_name.bind fun name hname => retains_findItem hr hname _ _ _ _ _ _
  refine hlocate.bind fun r hr => ?_
  obtain ⟨r, g⟩ := r
  cases r with
  | error reply => exact retains_writeWOpenReply _ _ _ _
  | ok item => exact retains_finishItem hr _ _ _ _ _ _

theorem retains_handleMessage (tag : Nat) (t : MessageType) :
    Retains Context.Named (handleMessage tag t) fun _ => True := by
  cases t with
  | read => exact retains_handleRead
  | write => exact retains_handleWrite
  | flush =>
    refine (retains_uint 2).bind fun oldTag _ => .ite (fun _ => retains_halt) fun _ => retains_pure trivial
  | statfs => exact retains_statFs
  | lopen => exact retains_lOpen
  | lcreate => exact retains_lCreate
  | symlink => exact retains_symLink
  | mknod => exact retains_mkNod
  | readlink => exact retains_readLink
  | getattr => exact retains_getAttr
  | setattr => exact retains_setAttr
  | xattrwalk => exact retains_xattrWalk
  | xattrcreate => exact retains_xattrCreate
  | readdir => exact retains_handleReadDir false
  | wreaddir => exact retains_handleReadDir true
  | fsync => exact retains_fsync
  | lock => exact retains_lock
  | getlock => exact retains_getLock
  | link => exact retains_link
  | mkdir => exact retains_mkDir
  | renameat => exact retains_renameAt
  | unlinkat => exact retains_unlinkAt
  | version => exact retains_version
  | auth => exact retains_throw
  | attach => exact retains_attach
  | walk => exact retains_walk
  | clunk => exact retains_clunk
  | remove => exact retains_remove
  | rename => exact retains_handleRename
  | access => exact retains_access
  | wopen => exact retains_wopen

theorem retains_handlerOf (m : Bytes) : Retains Context.Named (handlerOf m) fun _ => True := by
  rw [handlerOf]
  split
  · exact retains_handleMessage _ _
  · exact retains_throw

end Requests

namespace Clients

theorem named_of_step {s s' : Clients} {a : Arrival} (hs : s.handler.Named) (hstep : s.step a = some s') :
    s'.handler.Named := by
  by_cases hm : headerSize ≤ a.message.length
  · have hmeets := retains_handlerOf a.message ⟨s.handler, a.body, a.response⟩ hs
    have hensures : (handlerOf a.message ⟨s.handler, a.body, a.response⟩).Ensures
        fun r _ => r.2.handler.Named := by
      refine Program.Ensures.mono hmeets ?_
      rintro ⟨o, c⟩ t hend
      obtain ⟨-, hend⟩ := hend fun _ _ => trivial
      cases o with
      | value u => exact hend.1
      | error e => exact hend
      | halted x => exact hend
    obtain ⟨r, hnamed, hafter⟩ := run_respond hm hensures
    rw [step] at hstep
    split at hstep
    · next reply after hrun =>
      obtain ⟨-, rfl⟩ := hafter reply after hrun
      split at hstep
      · cases hstep
        exact hnamed
      · cases hstep
        exact hnamed
    · cases hstep
  · rw [(calls_of_short hm).2] at hstep
    cases hstep

theorem named_of_reaches {C : Clients → Arrival → Prop} {allowRenegotiate : Bool} {s : Clients}
    (h : Reaches step C (fresh allowRenegotiate) s) : s.handler.Named :=
  h.invariant (I := fun s => s.handler.Named) (fun _ _ hitem => by cases hitem)
    fun _ _ _ hs _ hstep => named_of_step hs hstep

end Clients

end WslFreeBSD.Plan9
