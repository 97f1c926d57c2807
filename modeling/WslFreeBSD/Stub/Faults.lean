import WslFreeBSD.Stub.Steps

/-!
# Where the handlers of the stub file server fault

Four of the handlers can leave an array. `P9_TSTAT` packs a path that can be longer than its stat has
room for; `P9_TWRITE` compares a sum of 32 bits with the length of the body; `P9_TLCREATE` copies a name
of any length, or uses one that it has not copied; and `P9_TWALK` compares neither the lengths of names
nor their number with its arrays. The other handlers never fault.
-/

namespace WslFreeBSD.Stub

open Lib Config
open Lib.Faulting

variable {σ : Type} {K : Kernel σ} {conn tag : Nat} {body : Bytes} {w : World σ}

/-! ## Stats -/

theorem length_packQid (qtype qversion qpath : Nat) : (packQid qtype qversion qpath).length = 13 := by
  simp [packQid]

theorem length_putString (s : Bytes) : (putString s).length = 2 + s.length := by simp [putString]

theorem length_statFields (e : FidEntry) (st : Stat) :
    ((statFields e st).map List.length).sum = 60 + e.statName.length := by
  have hroot : (ascii "root").length = 4 := rfl
  have hwheel : (ascii "wheel").length = 5 := rfl
  simp only [statFields, List.map_cons, List.map_nil, List.sum_cons, List.sum_nil, length_leBytes,
    length_packQid, length_putString, hroot, hwheel]
  omega

theorem length_statName_le_iff {e : FidEntry} : e.statName.length ≤ 450 ↔ e.path.1.length ≤ 450 := by
  unfold FidEntry.statName
  split
  · rename_i hroot
    rw [hroot]
    decide
  · rfl

theorem buildStat_eq {e : FidEntry} (st : Stat) (h : e.path.1.length ≤ 450) :
    ∃ stat, buildStat e st = .ok stat ∧ leAt 0 2 stat + 2 = stat.length := by
  have hfields := length_statFields e st
  have hname := length_statName_le_iff.mpr h
  have hroom : ([0, 0] : Bytes).length + ((statFields e st).map List.length).sum ≤ 512 := by
    rw [hfields, List.length_cons, List.length_singleton]
    omega
  refine ⟨leBytes 2 (([0, 0] ++ (statFields e st).flatten).length - 2) ++
    ([0, 0] ++ (statFields e st).flatten).drop 2, by rw [buildStat, foldlM_push_eq hroom]; rfl, ?_⟩
  have hlen : (([0, 0] : Bytes) ++ (statFields e st).flatten).length = 62 + e.statName.length := by
    rw [List.length_append, List.length_flatten, hfields, List.length_cons, List.length_singleton]
    omega
  rw [hlen, List.length_append, length_leBytes, List.length_drop, hlen]
  have hfit : 62 + e.statName.length - 2 < 256 ^ 2 := by omega
  have hsize := leAt_append_leBytes (l := []) rfl hfit (([0, 0] ++ (statFields e st).flatten).drop 2)
  rw [List.nil_append, List.length_nil] at hsize
  rw [hsize]
  omega

theorem buildStat_error {e : FidEntry} {st : Stat} (h : 450 < e.path.1.length) :
    buildStat e st = .error .writeOutside := by
  have hfields := length_statFields e st
  have hname : 450 < e.statName.length := Nat.lt_of_not_le fun hle =>
    absurd (length_statName_le_iff.mp hle) (Nat.not_le.mpr h)
  have hroom : 512 < ([0, 0] : Bytes).length + ((statFields e st).map List.length).sum := by
    rw [hfields, List.length_cons, List.length_singleton]
    omega
  rw [buildStat, foldlM_push_error hroom (by decide)]
  rfl

theorem completes_tstat_iff : Completes (tstat K conn tag body) w ↔
    ∀ e st, w.globals.fidMap.find (fieldAt body 4 0 4) = some e → K.stats e.fd w.env = some st →
      e.path.1.length ≤ 450 := by
  rw [tstat, completes_bind_of_ok (lift_field (by omega)), completes_bind_of_ok (fidFind_apply _)]
  cases hfind : w.globals.fidMap.find (fieldAt body 4 0 4) with
  | none => exact iff_of_true (total_p9SendError _ _ _ _) (by simp)
  | some e =>
    dsimp only
    rw [completes_bind_of_ok (fstat_apply _)]
    cases hstat : K.stats e.fd w.env with
    | none =>
      refine iff_of_true (total_p9SendError _ _ _ _) ?_
      rintro e' st he hst
      cases he
      cases hstat.symm.trans hst
    | some st =>
      by_cases hlen : e.path.1.length ≤ 450
      · obtain ⟨stat, hbuild, hsize⟩ := buildStat_eq st hlen
        refine ⟨fun _ e' _ he' _ => Option.some.inj he' ▸ hlen, fun _ => ?_⟩
        refine completes_lift_bind.mpr ⟨stat, hbuild, completes_lift_bind.mpr ⟨_, readBytes_eq ?_, ?_⟩⟩
        · omega
        · exact total_p9SendResponse _ _ _ _ _
      · refine ⟨fun h => ?_, fun h => absurd (h e st rfl hstat) hlen⟩
        obtain ⟨stat, hbuild, -⟩ := completes_lift_bind.mp h
        rw [buildStat_error (Nat.lt_of_not_le hlen)] at hbuild
        cases hbuild

/-! ## Data to write -/

theorem completes_writeData_iff {e : FidEntry} {offset count : Nat} (hbody : body.length < 2 ^ 32 - 16)
    (hcount : count < 2 ^ 32) (hshort : body.length < 16 → count = 0) :
    Completes (writeData K body e offset count) w ↔ count + 16 < 2 ^ 32 := by
  unfold writeData
  split
  · rename_i hguard
    rw [completes_bind_of_total fun data => total_pwrite e.fd data offset, completes_lift]
    by_cases hin : 16 + count ≤ body.length
    · exact iff_of_true ⟨_, readBytes_eq hin⟩ (by omega)
    · refine iff_of_false ?_ (by omega)
      rintro ⟨data, hdata⟩
      rw [readBytes, if_neg hin] at hdata
      cases hdata
  · rename_i hguard
    refine iff_of_true completes_pure ?_
    omega

theorem completes_twrite_iff (hbody : body.length < 2 ^ 32 - 16) : Completes (twrite K conn tag body) w ↔
    (w.globals.fidMap.find (fieldAt body 16 0 4) ≠ none → fieldAt body 16 12 4 + 16 < 2 ^ 32) := by
  rw [twrite, completes_bind_of_ok (lift_field (by omega)), completes_bind_of_ok (lift_field (by omega)),
    completes_bind_of_ok (lift_field (by omega)), completes_bind_of_ok (fidFind_apply _)]
  cases hfind : w.globals.fidMap.find (fieldAt body 16 0 4) with
  | none => exact iff_of_true (total_p9SendError _ _ _ _) (fun h => absurd rfl h)
  | some e =>
    dsimp only
    have hshort (h : body.length < 16) : fieldAt body 16 12 4 = 0 := if_neg (Nat.not_le.mpr h)
    rw [completes_bind_of_total fun _ => total_p9SendResponse _ _ _ _,
      completes_writeData_iff hbody (fieldAt_lt _ _ _ _) hshort]
    exact ⟨fun h _ => h, fun h => h (Option.some_ne_none e)⟩

/-! ## The name of a new file -/

/-- The name of a `P9_TLCREATE` is copied. -/
def NameCopied (body : Bytes) : Prop :=
  10 ≤ body.length ∧ 0 < fieldAt body 10 4 2 ∧ 6 + fieldAt body 10 4 2 ≤ body.length

instance : Decidable (NameCopied body) := inferInstanceAs (Decidable (_ ∧ _))

theorem total_createFile (parent : FidEntry) (fid flags mode : Nat) (name : CStr) :
    Total (createFile K conn tag parent fid flags mode name) := by
  refine (total_acquire _).bind fun newfd => ?_
  cases newfd with
  | none => exact total_p9SendError _ _ _
  | some newfd =>
    refine total_fidNextQpath.bind fun qpath => (total_fidReplace _).bind fun replaced => ?_
    refine Total.ite (total_p9SendResponse _ _ _ _) ((total_fidAdd _).bind fun added => ?_)
    refine Total.ite (total_p9SendResponse _ _ _ _) ((total_close _).bind fun _ => ?_)
    exact total_p9SendError _ _ _

theorem completes_createNamed_iff {fid nameLen : Nat} {name : Option CStr} :
    Completes (createNamed K conn tag body fid nameLen name) w ↔
      (w.globals.fidMap.find fid ≠ none → name ≠ none) := by
  rw [createNamed, completes_bind_of_ok (lift_field (by omega)), completes_bind_of_ok (lift_field (by omega)),
    completes_bind_of_ok (fidFind_apply _)]
  cases hfind : w.globals.fidMap.find fid with
  | none => exact iff_of_true (total_p9SendError _ _ _ _) (fun h => absurd rfl h)
  | some parent =>
    dsimp only
    rw [completes_bind_of_total fun _ => total_createFile _ _ _ _ _, completes_lift]
    cases name with
    | none =>
      refine iff_of_false ?_ (by simp)
      rintro ⟨name, hname⟩
      cases hname
    | some name => exact iff_of_true ⟨name, rfl⟩ (by simp)

theorem lcreateName_eq (h : NameCopied body) :
    lcreateName body (fieldAt body 10 4 2) = (copyName body 6 (fieldAt body 10 4 2)).map some := if_pos h

theorem lcreateName_eq_none (h : ¬ NameCopied body) : lcreateName body (fieldAt body 10 4 2) = .ok none :=
  if_neg h

theorem completes_tlcreate_iff : Completes (tlcreate K conn tag body) w ↔
    (NameCopied body → fieldAt body 10 4 2 < 256) ∧
      (w.globals.fidMap.find (fieldAt body 10 0 4) ≠ none → NameCopied body) := by
  rw [tlcreate, completes_bind_of_ok (lift_field (by omega)), completes_bind_of_ok (lift_field (by omega)),
    completes_lift_bind]
  by_cases hcopied : NameCopied body
  · rw [lcreateName_eq hcopied]
    by_cases hlen : fieldAt body 10 4 2 < 256
    · obtain ⟨name, hname, -⟩ := copyName_eq hcopied.2.2 hlen
      rw [hname]
      refine iff_of_true ⟨some name, rfl, completes_createNamed_iff.mpr fun _ => ?_⟩
        ⟨fun _ => hlen, fun _ => hcopied⟩
      exact Option.some_ne_none name
    · rw [copyName_error hcopied.2.2 (Nat.le_of_not_lt hlen)]
      refine iff_of_false ?_ (fun h => hlen (h.1 hcopied))
      rintro ⟨name, hname, -⟩
      cases hname
  · rw [lcreateName_eq_none hcopied]
    constructor
    · rintro ⟨name, hname, hrest⟩
      cases hname
      exact ⟨fun h => absurd h hcopied, fun h => absurd rfl (completes_createNamed_iff.mp hrest h)⟩
    · rintro ⟨-, hunknown⟩
      exact ⟨none, rfl, completes_createNamed_iff.mpr fun h => absurd (hunknown h) hcopied⟩

/-! ## Walks -/

def wireNames (body : Bytes) : Nat → Nat → List Bytes
  | 0, _ => []
  | left + 1, pos =>
    if body.length < pos + 2 then []
    else if body.length < pos + 2 + leAt pos 2 body then []
    else (body.drop (pos + 2)).take (leAt pos 2 body) :: wireNames body left (pos + 2 + leAt pos 2 body)

/-- The names that a walk can come to fit the array, and there is room for a qid of each that it can
open. It cannot open a name that is empty. -/
def NamesFit : Nat → List Bytes → Prop
  | _, [] => True
  | 0, name :: _ => name.length < 256 ∧ cString name 0 = []
  | room + 1, name :: names => name.length < 256 ∧ (cString name 0 ≠ [] → NamesFit room names)

instance decidableNamesFit : (room : Nat) → (names : List Bytes) → Decidable (NamesFit room names)
  | 0, [] => .isTrue trivial
  | _ + 1, [] => .isTrue trivial
  | 0, _ :: _ => inferInstanceAs (Decidable (_ ∧ _))
  | room + 1, _ :: names =>
    have := decidableNamesFit room names
    inferInstanceAs (Decidable (_ ∧ (_ → _)))

theorem namesFit_cons {room : Nat} {name : Bytes} {names : List Bytes} (h : NamesFit room (name :: names)) :
    name.length < 256 ∧ (cString name 0 ≠ [] → ∃ room', room = room' + 1 ∧ NamesFit room' names) := by
  cases room with
  | zero => exact ⟨h.1, fun hne => absurd h.2 hne⟩
  | succ room => exact ⟨h.1, fun hne => ⟨room, rfl, h.2 hne⟩⟩

theorem total_openComponent (dir : Nat) (name : CStr) : Total (openComponent K dir name) := by
  refine (total_acquire _).bind fun fd => ?_
  cases fd with
  | some fd => exact total_pure
  | none =>
    refine (total_acquire _).bind fun fd => ?_
    cases fd <;> exact total_pure

theorem openComponent_nil (dir : Nat) {name : CStr} (h : name.1 = []) (w : World σ) :
    ∃ w', openComponent K dir name w = .ok (none, w') := by
  have hfalse (flags : Nat) (w : World σ) : acquire K (.openat dir name.1 flags 0) w =
      .ok (none, { w with env := (K.answer (.opens (.openat dir name.1 flags 0)) w.env).2 }) := by
    refine acquire_of_false ?_
    rw [h]
    exact K.empty_name dir flags 0 w.env
  exact ⟨_, (bind_of_ok (hfalse _ w)).trans ((bind_of_ok (hfalse _ _)).trans rfl)⟩

/-- One turn of the loop: there is no complete name, or the next one is copied and walked, or it does not
fit the array. -/
theorem walkComponents_succ (K : Kernel σ) (body : Bytes) (parent : FidEntry) (newfid left : Nat) (walk : Walk)
    (w : World σ) :
    (wireNames body (left + 1) walk.pos = [] ∧
      walkComponents K body parent newfid (left + 1) walk w = .ok (walk, w)) ∨
    ∃ raw, wireNames body (left + 1) walk.pos = raw :: wireNames body left (walk.pos + 2 + raw.length) ∧
      (raw.length < 256 → ∃ name : CStr, name.1 = cString raw 0 ∧
        walkComponents K body parent newfid (left + 1) walk w =
          walkName K parent newfid left walk raw.length name (walkComponents K body parent newfid left) w) ∧
      (256 ≤ raw.length → walkComponents K body parent newfid (left + 1) walk w = .error .writeOutside) := by
  rw [walkComponents, wireNames]
  by_cases hlen : body.length < walk.pos + 2
  · rw [if_pos hlen, if_pos hlen]
    exact Or.inl ⟨rfl, rfl⟩
  rw [if_neg hlen, if_neg hlen, readLE_eq (by omega), bind_of_ok lift_ok]
  by_cases hname : body.length < walk.pos + 2 + leAt walk.pos 2 body
  · rw [if_pos hname, if_pos hname]
    exact Or.inl ⟨rfl, rfl⟩
  rw [if_neg hname, if_neg hname]
  have hraw : ((body.drop (walk.pos + 2)).take (leAt walk.pos 2 body)).length = leAt walk.pos 2 body := by
    rw [List.length_take, List.length_drop, Nat.min_eq_left (by omega)]
  refine Or.inr ⟨_, by rw [hraw], fun hshort => ?_, fun hlong => ?_⟩
  · rw [hraw] at hshort ⊢
    obtain ⟨name, hcopy, hcstr⟩ := copyName_eq (Nat.le_of_not_lt hname) hshort
    exact ⟨name, hcstr, by rw [hcopy, bind_of_ok lift_ok]⟩
  · rw [hraw] at hlong
    rw [copyName_error (Nat.le_of_not_lt hname) hlong, bind_of_error lift_error]

theorem walkComponents_fits {parent : FidEntry} {newfid left room : Nat} {walk : Walk}
    (hqids : walk.qids.length = 13 * 16) (hroom : walk.nwqid + room = 16)
    (hfit : NamesFit room (wireNames body left walk.pos)) :
    Yields (walkComponents K body parent newfid left walk) w fun walk' _ =>
      walk'.qids.length = 13 * 16 ∧ walk'.nwqid ≤ 16 := by
  induction left generalizing walk room w with
  | zero => exact yields_pure ⟨hqids, by omega⟩
  | succ left ih =>
    obtain ⟨-, hdone⟩ | ⟨raw, hnames, hshort, -⟩ := walkComponents_succ K body parent newfid left walk w
    · exact yields_of_ok hdone ⟨hqids, by omega⟩
    rw [hnames] at hfit
    obtain ⟨hlt, hnext⟩ := namesFit_cons hfit
    obtain ⟨name, hname, hwalk⟩ := hshort hlt
    refine Yields.congr hwalk ?_
    refine (total_openComponent _ _).yields_bind fun next w₁ hopen => ?_
    cases next with
    | none => exact yields_pure ⟨hqids, Nat.zero_le _⟩
    | some next =>
      have hne : cString raw 0 ≠ [] := by
        rw [← hname]
        intro hnil
        obtain ⟨w₂, hnone⟩ := openComponent_nil (K := K) walk.curFd hnil w
        rw [hopen] at hnone
        cases hnone
      obtain ⟨room', rfl, hfit'⟩ := hnext hne
      dsimp only
      refine total_fidNextQpath.yields_bind fun qpath w₂ _ => ?_
      have hroom' : walk.nwqid * 13 + (packQid next.2 0 qpath).length ≤ walk.qids.length := by
        rw [length_packQid, hqids]
        omega
      obtain ⟨qids, hwrite, hlen'⟩ := writeBytes_spec hroom'
      rw [hwrite]
      refine yields_bind_of_ok lift_ok ?_
      split
      · refine (total_fidAdd _).yields_bind fun added w₃ _ => ?_
        split
        · exact yields_pure ⟨hlen'.trans hqids, by dsimp only; omega⟩
        · exact (total_close _).yields_bind fun _ _ _ => yields_pure ⟨hqids, Nat.zero_le _⟩
      · split
        · refine (total_close _).yields_bind fun _ w₃ _ => ?_
          exact ih (hlen'.trans hqids) (by dsimp only; omega) hfit'
        · exact ih (hlen'.trans hqids) (by dsimp only; omega) hfit'

theorem completes_walkReply {walk : Walk} (hqids : walk.qids.length = 13 * 16) (hroom : walk.nwqid ≤ 16) :
    Completes (walkReply K conn tag walk) w := by
  unfold walkReply
  split
  · exact total_p9SendResponse _ _ _ _ _
  · rw [readBytes_eq (by omega)]
    refine (completes_bind_of_ok lift_ok).mpr ?_
    rw [push_eq (by rw [length_leBytes, List.length_take]; omega)]
    exact (completes_bind_of_ok lift_ok).mpr (total_p9SendResponse _ _ _ _ _)

theorem total_walkFrom_zero (parent : FidEntry) (newfid : Nat) :
    Total (walkFrom K conn tag body parent newfid 0) := by
  rw [walkFrom, if_pos rfl]
  refine (total_acquire _).bind fun newfd => ?_
  cases newfd with
  | none => exact total_p9SendError _ _ _
  | some newfd =>
    refine (total_fidAdd _).bind fun added => Total.ite (total_p9SendResponse _ _ _ _) ?_
    exact (total_close _).bind fun _ => total_p9SendError _ _ _

/-- What a `P9_TWALK` needs. -/
def WalkFits (m : FidMap) (body : Bytes) : Prop :=
  m.find (fieldAt body 10 0 4) ≠ none → NamesFit 16 (wireNames body (fieldAt body 10 8 2) 10)

theorem completes_twalk (h : WalkFits w.globals.fidMap body) : Completes (twalk K conn tag body) w := by
  rw [twalk, completes_bind_of_ok (lift_field (by omega)), completes_bind_of_ok (lift_field (by omega)),
    completes_bind_of_ok (lift_field (by omega)), completes_bind_of_ok (fidFind_apply _)]
  cases hfind : w.globals.fidMap.find (fieldAt body 10 0 4) with
  | none => exact total_p9SendError _ _ _ _
  | some parent =>
    dsimp only
    by_cases hzero : fieldAt body 10 8 2 = 0
    · rw [hzero]
      exact total_walkFrom_zero _ _ _
    · have hnames := h (by rw [hfind]; exact Option.some_ne_none parent)
      rw [walkFrom, if_neg hzero]
      have hyields : Yields (walkComponents K body parent (fieldAt body 10 4 4) (fieldAt body 10 8 2)
          { curFd := parent.fd, curPath := parent.path }) w fun walk _ =>
            walk.qids.length = 13 * 16 ∧ walk.nwqid ≤ 16 :=
        walkComponents_fits (List.length_replicate ..) rfl hnames
      obtain ⟨walk, w', hwalk, hqids, hroom⟩ := hyields
      exact (completes_bind_of_ok hwalk).mpr (completes_walkReply hqids hroom)

/-! ## The other requests -/

theorem total_tversion : Total (tversion K conn tag body) := by
  unfold tversion
  split
  · exact total_p9SendError _ _ _
  · intro w
    rw [readLE_eq (by omega)]
    exact (completes_bind_of_ok lift_ok).mpr (total_p9SendResponse _ _ _ _ _)

theorem total_tattach : Total (tattach K conn tag body) := by
  refine (total_field (by omega)).bind fun fid => total_get.bind fun w => ?_
  refine (total_acquire _).bind fun rootDup => ?_
  cases rootDup with
  | none => exact total_p9SendError _ _ _
  | some rootDup =>
    refine (total_fidAdd _).bind fun added => Total.ite (total_p9SendResponse _ _ _ _) ?_
    exact (total_close _).bind fun _ => total_p9SendError _ _ _

theorem total_tclunk : Total (tclunk K conn tag body) :=
  (total_field (by omega)).bind fun _ => (total_fidRemove _).bind fun _ => total_p9SendResponse _ _ _ _

theorem total_tlopen : Total (tlopen K conn tag body) := by
  refine (total_field (by omega)).bind fun fid => (total_field (by omega)).bind fun flags =>
    total_get.bind fun w => ?_
  cases w.globals.fidMap.locate fid with
  | none => exact total_p9SendError _ _ _
  | some found =>
    refine Total.ite (total_p9SendResponse _ _ _ _) ((total_acquire _).bind fun newfd => ?_)
    cases newfd with
    | none => exact total_p9SendError _ _ _
    | some newfd =>
      exact (total_close _).bind fun _ => (total_modify _).bind fun _ => total_p9SendResponse _ _ _ _

theorem total_packEntries (count entryIdx : Nat) (data : Bytes) (entries : List Dirent) :
    Total (packEntries count entryIdx data entries : Serving σ Bytes) := by
  induction entries generalizing entryIdx data with
  | nil => exact total_pure
  | cons de entries ih =>
    rw [packEntries]
    refine Total.ite (Total.ite (ih _ _) (total_fidNextQpath.bind fun qpath => ?_)) total_pure
    split
    · exact total_pure
    · rename_i hroom
      intro w
      rw [push_eq (by rw [length_packQid]; omega), completes_bind_of_ok lift_ok,
        push_eq (by simp only [List.length_append, length_packQid, length_leBytes]; omega),
        completes_bind_of_ok lift_ok,
        push_eq (by
          simp only [List.length_append, length_packQid, length_leBytes, List.length_singleton]
          omega),
        completes_bind_of_ok lift_ok,
        push_eq (by
          simp only [List.length_append, length_packQid, length_leBytes, List.length_singleton,
            length_putString]
          omega),
        completes_bind_of_ok lift_ok]
      exact ih _ _ w

theorem total_readDirectory (e : FidEntry) (offset count : Nat) :
    Total (readDirectory K conn tag e offset count) := by
  refine (total_acquire _).bind fun dirFd => ?_
  cases dirFd with
  | none => exact total_p9SendError _ _ _
  | some dirFd =>
    refine (total_opendir _).bind fun entries => ?_
    cases entries with
    | none => exact total_p9SendError _ _ _
    | some entries =>
      refine (total_malloc _).bind fun got => Total.ite ?_ ?_
      · refine (total_packEntries _ _ _ _).bind fun data => (total_closedir _).bind fun _ => ?_
        exact (total_malloc _).bind fun _ => Total.ite (total_p9SendResponse _ _ _ _) (total_p9SendError _ _ _)
      · exact (total_closedir _).bind fun _ => total_p9SendError _ _ _

theorem total_readFile (e : FidEntry) (offset count : Nat) : Total (readFile K conn tag e offset count) := by
  refine (total_malloc _).bind fun got => Total.ite ?_ (total_p9SendError _ _ _)
  refine (total_pread _ _ _).bind fun data => ?_
  cases data with
  | none => exact total_p9SendError _ _ _
  | some data =>
    exact (total_malloc _).bind fun _ => Total.ite (total_p9SendResponse _ _ _ _) (total_p9SendError _ _ _)

theorem total_tread : Total (tread K conn tag body) := by
  refine (total_field (by omega)).bind fun fid => (total_field (by omega)).bind fun offset =>
    (total_field (by omega)).bind fun count => (total_fidFind _).bind fun e => ?_
  cases e with
  | none => exact total_p9SendError _ _ _
  | some e => exact Total.ite (total_readDirectory _ _ _) (total_readFile _ _ _)

theorem total_tremove : Total (tremove K conn tag body) := by
  refine (total_field (by omega)).bind fun fid => total_get.bind fun w => ?_
  cases w.globals.fidMap.find fid with
  | none => exact total_p9SendError _ _ _
  | some e =>
    exact (total_remove _ _).bind fun _ => (total_fidRemove _).bind fun _ => total_p9SendResponse _ _ _ _

/-! ## What a request needs -/

/-- What a request needs so that no array is left, whatever the kernel answers. -/
def RequestFits (m : FidMap) (type : Nat) (body : Bytes) : Prop :=
  if type = P9_TSTAT then ∀ e, m.find (fieldAt body 4 0 4) = some e → e.path.1.length ≤ 450
  else if type = P9_TWALK then WalkFits m body
  else if type = P9_TLCREATE then
    (NameCopied body → fieldAt body 10 4 2 < 256) ∧ (m.find (fieldAt body 10 0 4) ≠ none → NameCopied body)
  else if type = P9_TWRITE then m.find (fieldAt body 16 0 4) ≠ none → fieldAt body 16 12 4 + 16 < 2 ^ 32
  else True

theorem completes_p9Dispatch {type : Nat} (hbody : body.length < 2 ^ 32 - 16)
    (h : RequestFits w.globals.fidMap type body) : Completes (p9Dispatch K conn tag body type) w := by
  unfold RequestFits at h
  unfold p9Dispatch
  by_cases hstat : type = P9_TSTAT
  · subst hstat
    exact completes_tstat_iff.mpr fun e st he _ => h e he
  rw [if_neg hstat] at h
  by_cases hwalk : type = P9_TWALK
  · subst hwalk
    exact completes_twalk h
  rw [if_neg hwalk] at h
  by_cases hcreate : type = P9_TLCREATE
  · subst hcreate
    exact completes_tlcreate_iff.mpr h
  rw [if_neg hcreate] at h
  by_cases hwrite : type = P9_TWRITE
  · subst hwrite
    exact (completes_twrite_iff hbody).mpr h
  rw [if_neg hstat, if_neg hwalk, if_neg hcreate, if_neg hwrite]
  have htotal : Total (if type = P9_TVERSION then tversion K conn tag body
      else if type = P9_TATTACH then tattach K conn tag body
      else if type = P9_TCLUNK then tclunk K conn tag body
      else if type = P9_TLOPEN then tlopen K conn tag body
      else if type = P9_TREAD then tread K conn tag body
      else if type = P9_TREMOVE then tremove K conn tag body
      else if type = P9_TFLUSH then tflush K conn tag
      else p9SendError K conn tag "not supported") :=
    total_tversion.ite <| total_tattach.ite <| total_tclunk.ite <| total_tlopen.ite <| total_tread.ite <|
      total_tremove.ite <| (total_p9SendResponse _ _ _ _).ite (total_p9SendError _ _ _)
  exact htotal w

end WslFreeBSD.Stub
