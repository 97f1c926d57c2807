import WslFreeBSD.Stub.Faults

/-!
# The arrays of the stub file server

Which requests can make `p9_handle_request` leave its arrays. `RequestFits` is what a request needs, in
the table as it is, so that none of this can happen whatever the kernel answers; a kernel that does all
it is asked for (`Kernel.willing`) shows that nothing less is enough.
-/

namespace WslFreeBSD.Stub

open Lib Config
open Lib.Faulting

variable {σ : Type} {K : Kernel σ} {conn tag : Nat} {body : Bytes} {w : World σ}

/-! ## A kernel that lets a walk go on -/

def Kernel.willing : Kernel Unit where
  numbering := .next
  answer
    | .opens (.openat _ name _ _), s => (decide (name ≠ []), s)
    | .opens _, s | .malloc _, s | .remove _ _, s => (true, s)
    | .close _, s | .closedir _, s | .send _ _, s => ((), s)
    | .fstat _, s => (some ⟨0, 0, 0, 0, 0⟩, s)
    | .opendir _, s => (some [], s)
    | .pread _ count _, s => (some ⟨[], Nat.zero_le count⟩, s)
    | .pwrite _ _ _, s => (some 0, s)
  empty_name _ _ _ _ := rfl

theorem openComponent_willing (dir : Nat) {name : CStr} (h : name.1 ≠ []) (w : World Unit) :
    ∃ fd w', openComponent Kernel.willing dir name w = .ok (some (fd, P9_QID_DIR), w') := by
  have hgrants (flags : Nat) : Kernel.willing.grants (.openat dir name.1 flags 0) w.env = true :=
    decide_eq_true h
  exact ⟨_, _, (bind_of_ok (acquire_of_true (hgrants _))).trans rfl⟩

theorem walkComponents_unfit {parent : FidEntry} {newfid left room : Nat} {walk : Walk} {w : World Unit}
    (hqids : walk.qids.length = 13 * 16) (hroom : walk.nwqid + room = 16)
    (hunfit : ¬ NamesFit room (wireNames body left walk.pos)) :
    ¬ Completes (walkComponents Kernel.willing body parent newfid left walk) w := by
  induction left generalizing walk room w with
  | zero => exact absurd (by cases room <;> exact trivial) hunfit
  | succ left ih =>
    obtain ⟨hnil, -⟩ | ⟨raw, hnames, hshort, hlong⟩ :=
      walkComponents_succ Kernel.willing body parent newfid left walk w
    · rw [hnil] at hunfit
      exact absurd (by cases room <;> exact trivial) hunfit
    rw [hnames] at hunfit
    by_cases hlength : raw.length < 256
    · obtain ⟨name, hname, hwalk⟩ := hshort hlength
      rw [completes_congr hwalk, walkName]
      have hne : name.1 ≠ [] := by
        rw [hname]
        intro hempty
        refine hunfit ?_
        cases room with
        | zero => exact ⟨hlength, hempty⟩
        | succ room => exact ⟨hlength, fun h => absurd hempty h⟩
      obtain ⟨nextFd, w₁, hopen⟩ := openComponent_willing walk.curFd hne w
      rw [completes_bind_of_ok hopen]
      dsimp only
      rw [completes_bind_of_ok (a := w₁.globals.nextQpath) rfl]
      cases room with
      | zero =>
        rw [writeBytes_error (by rw [length_packQid, hqids]; omega)]
        exact not_completes_of_error (bind_of_error lift_error)
      | succ room =>
        have hroom' : walk.nwqid * 13 + (packQid P9_QID_DIR 0 w₁.globals.nextQpath).length ≤
            walk.qids.length := by
          rw [length_packQid, hqids]
          omega
        obtain ⟨qids, hwrite, hlen'⟩ := writeBytes_spec hroom'
        have hrest : ¬ NamesFit room (wireNames body left (walk.pos + 2 + raw.length)) :=
          fun hfit => hunfit ⟨hlength, fun _ => hfit⟩
        rw [hwrite, completes_bind_of_ok lift_ok]
        split
        · rename_i hlast
          rw [hlast] at hrest
          exact absurd (by cases room <;> exact trivial) hrest
        · split
          · rw [completes_bind_of_ok (close_apply _)]
            exact ih (hlen'.trans hqids) (by dsimp only; omega) hrest
          · exact ih (hlen'.trans hqids) (by dsimp only; omega) hrest
    · exact not_completes_of_error (hlong (Nat.le_of_not_lt hlength))

theorem not_completes_twalk {w : World Unit} (h : ¬ WalkFits w.globals.fidMap body) :
    ¬ Completes (twalk Kernel.willing conn tag body) w := by
  rw [twalk, completes_bind_of_ok (lift_field (by omega)), completes_bind_of_ok (lift_field (by omega)),
    completes_bind_of_ok (lift_field (by omega)), completes_bind_of_ok (fidFind_apply _)]
  obtain ⟨hknown, hunfit⟩ := Classical.not_imp.mp h
  obtain ⟨parent, hfind⟩ := Option.ne_none_iff_exists'.mp hknown
  rw [hfind]
  dsimp only
  have hnames : fieldAt body 10 8 2 ≠ 0 := by
    intro hzero
    rw [hzero] at hunfit
    exact hunfit trivial
  rw [walkFrom, if_neg hnames]
  intro hc
  obtain ⟨walk, w', hwalk, -⟩ := completes_bind.mp hc
  exact walkComponents_unfit (List.length_replicate ..) rfl hunfit ⟨_, hwalk⟩

theorem not_completes_p9Dispatch {type : Nat} {w : World Unit} (hbody : body.length < 2 ^ 32 - 16)
    (h : ¬ RequestFits w.globals.fidMap type body) :
    ¬ Completes (p9Dispatch Kernel.willing conn tag body type) w := by
  unfold RequestFits at h
  by_cases hstat : type = P9_TSTAT
  · subst hstat
    rw [if_pos rfl] at h
    exact fun hc => h fun e he => completes_tstat_iff.mp hc e ⟨0, 0, 0, 0, 0⟩ he rfl
  rw [if_neg hstat] at h
  by_cases hwalk : type = P9_TWALK
  · subst hwalk
    rw [if_pos rfl] at h
    exact not_completes_twalk h
  rw [if_neg hwalk] at h
  by_cases hcreate : type = P9_TLCREATE
  · subst hcreate
    rw [if_pos rfl] at h
    exact fun hc => h (completes_tlcreate_iff.mp hc)
  rw [if_neg hcreate] at h
  by_cases hwrite : type = P9_TWRITE
  · subst hwrite
    rw [if_pos rfl] at h
    exact fun hc => h ((completes_twrite_iff hbody).mp hc)
  rw [if_neg hwrite] at h
  exact absurd trivial h

/-! ## Whole requests -/

/-- Whatever the kernel answers, the request is handled without leaving an array. -/
def StaysInside (g : Globals) (m : Bytes) : Prop :=
  ∀ (σ : Type) (K : Kernel σ) (conn : Nat) (w : World σ) (more : Bytes), w.globals = g →
    Completes (p9HandleRequest K conn (m ++ more)) w

theorem completes_p9HandleRequest_iff {m more : Bytes} (hsize : leAt 0 4 m = m.length) (hmin : 7 ≤ m.length)
    (hmax : m.length ≤ P9_MAXMSIZE) : Completes (p9HandleRequest K conn (m ++ more)) w ↔
      ∀ w', malloc K (m.length - 4) w = .ok (true, w') →
        Completes (p9Dispatch K conn (leAt 5 2 m) (m.drop 7) (leAt 4 1 m)) w' := by
  rw [completes_congr (p9HandleRequest_append hsize hmin hmax)]
  obtain ⟨⟨got, w'⟩, hgot⟩ := total_malloc (K := K) (m.length - 4) w
  rw [completes_bind_of_ok hgot]
  cases got with
  | false => exact iff_of_true completes_pure fun w'' h => by cases hgot.symm.trans h
  | true =>
    rw [if_pos rfl, completes_bind_of_total fun _ => total_pure]
    constructor
    · intro h w'' hw''
      cases hgot.symm.trans hw''
      exact h
    · exact fun h => h w' hgot

/-- A request of any kind stays inside the arrays exactly if the names that are copied, the qids, the
path of a stat and the sum of a write fit. -/
theorem p9HandleRequest_inside_iff (g : Globals) {m : Bytes} (hsize : leAt 0 4 m = m.length)
    (hmin : 7 ≤ m.length) (hmax : m.length ≤ P9_MAXMSIZE) :
    StaysInside g m ↔ RequestFits g.fidMap (leAt 4 1 m) (m.drop 7) := by
  have hbody : (m.drop 7).length < 2 ^ 32 - 16 := by
    rw [List.length_drop]
    have : P9_MAXMSIZE = 65536 := rfl
    omega
  constructor
  · intro h
    by_contra hunfit
    have hc := (completes_p9HandleRequest_iff hsize hmin hmax).mp
      (h Unit Kernel.willing 0 ⟨g, ∅, [], ()⟩ [] rfl) _ rfl
    exact not_completes_p9Dispatch hbody hunfit hc
  · intro h σ K conn w more hg
    subst hg
    refine (completes_p9HandleRequest_iff hsize hmin hmax).mpr fun w' hw' => ?_
    exact completes_p9Dispatch hbody (by rwa [(of_malloc hw').1])

/-- The globals at the start, with `/` for the root. -/
def Globals.initial : Globals := { rootPath := ⟨[47], by decide⟩, rootFd := 3 }

/-- The creation of `a`. -/
theorem p9HandleRequest_inside_create : StaysInside .initial
    ([26, 0, 0, 0, 114, 1, 0] ++ ([0, 0, 0, 0, 1, 0, 97] ++ List.replicate 12 0)) := by
  refine (p9HandleRequest_inside_iff .initial (by decide) (by decide) (by decide)).mpr ?_
  exact ⟨fun _ => by decide, fun _ => by decide⟩

/-- The creation of a file with a name of 256 characters. -/
def longCreate : Bytes :=
  leBytes 4 269 ++ [114, 1, 0] ++ (List.replicate 4 0 ++ leBytes 2 256 ++ List.replicate 256 97)

/-- The NUL behind the name is written behind the array. -/
theorem p9HandleRequest_not_inside : ¬ ∀ m : Bytes, leAt 0 4 m = m.length → 7 ≤ m.length →
    m.length ≤ P9_MAXMSIZE → StaysInside .initial m := by
  intro h
  have hsize : leAt 0 4 longCreate = longCreate.length := by decide +kernel
  have hmin : 7 ≤ longCreate.length := by decide +kernel
  have hmax : longCreate.length ≤ P9_MAXMSIZE := by decide +kernel
  have hc := (completes_p9HandleRequest_iff hsize hmin hmax).mp
    (h longCreate hsize hmin hmax Unit Kernel.willing 0 ⟨.initial, ∅, [], ()⟩ [] rfl) _ rfl
  have hbody : (longCreate.drop 7).length < 2 ^ 32 - 16 := by decide +kernel
  refine not_completes_p9Dispatch hbody (fun hfits => ?_) hc
  have htype : leAt 4 1 longCreate = P9_TLCREATE := by decide
  rw [htype] at hfits
  have hcopied : NameCopied (longCreate.drop 7) := by decide +kernel
  have hlen : fieldAt (longCreate.drop 7) 10 4 2 = 256 := by decide +kernel
  have hlt := hfits.1 hcopied
  rw [hlen] at hlt
  exact absurd hlt (by decide)

end WslFreeBSD.Stub
