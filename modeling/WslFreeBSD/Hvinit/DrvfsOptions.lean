import WslFreeBSD.Config.Initialize
import WslFreeBSD.Hvinit.Mounts
import WslFreeBSD.Lib.CBuffer

/-!
# The options of a drive

`drvfs_build_options` with a buffer of any size, by its writes into the buffer. It never writes
outside of it, and fails when the text up to the path of the drive does not fit; the options of the
drive behind that text are cut without a failure (`drvfsBuildOptionsIn_eq`). So success means that
the buffer holds all options exactly when there are none for the drive, or there is room for them
and for one more character, or already the text in front of them is too long
(`drvfsBuildOptionsIn_complete_iff`).
-/

namespace WslFreeBSD.Hvinit

open Lib Config

/-! ## The code -/

def LX_INIT_DRVFS_VIRTIO_TAG : Bytes := ascii "drvfs"
def LX_INIT_DRVFS_ADMIN_VIRTIO_TAG : Bytes := ascii "drvfsa"
def PLAN9_ANAME_DRVFS : Bytes := ascii "aname=drvfs"

def transportOptions (featureFlags : UInt32) (elevated : Bool) : Bytes :=
  if featureFlags &&& 0x01 ≠ 0 then
    ascii "msize=262144,trans=virtio," ++
      (if elevated then LX_INIT_DRVFS_ADMIN_VIRTIO_TAG else LX_INIT_DRVFS_VIRTIO_TAG) ++
      ascii ",cache=mmap,"
  else ascii "msize=65536,trans=fd,cache=mmap,"

/-- The `snprintf` behind what is in the buffer: the buffer, and the room that there was. -/
def appendPrinted (buf : Bytes) (bufsize : UInt64) (text : Bytes) : Option (Bytes × Nat) := do
  let cur ← strlen buf
  let room := (bufsize - UInt64.ofNat cur).toNat
  let buf ← printInto buf cur room text
  pure (buf, room)

def separatorOption (c : UInt8) : UInt8 := if c = 44 then 59 else c

/-- The loop over the options of the drive: `cur` and the buffer. -/
def copyOptions (bufsize : UInt64) (buf : Bytes) (cur : Nat) : Bytes → Option (Nat × Bytes)
  | [] => some (cur, buf)
  | c :: opts =>
    if cur < (bufsize - 2).toNat then do
      let buf ← store buf cur [separatorOption c]
      copyOptions bufsize buf (cur + 1) opts
    else some (cur, buf)

/-- `drvfs_build_options` from the `;` on. -/
def appendDrvfsOptions (buf : Bytes) (bufsize : UInt64) (opts : Bytes) : Option (Int × Bytes) := do
  let (buf, room) ← appendPrinted buf bufsize [59]
  if room ≤ 1 then some (-1, buf)
  else
    let cur ← strlen buf
    let (cur, buf) ← copyOptions bufsize buf cur opts
    let buf ← store buf cur [0]
    some (0, buf)

/-- The standard options, with a comma behind them. -/
def appendStandard (buf : Bytes) (bufsize : UInt64) (stdOptions : Bytes) : Option Bytes :=
  if stdOptions = [] then some buf
  else do
    let (buf, _) ← appendPrinted buf bufsize (stdOptions ++ [44])
    some buf

def anameOption (source : Bytes) : Bytes := PLAN9_ANAME_DRVFS ++ ascii ";path=" ++ source

/-- `drvfs_build_options` from the path of the drive on. -/
def appendAname (buf : Bytes) (bufsize : UInt64) (source : Bytes) (drvfsOpts : Option Bytes) :
    Option (Int × Bytes) := do
  let (buf, room) ← appendPrinted buf bufsize (anameOption source)
  if printfResult (anameOption source) < 0 ∨ room ≤ (anameOption source).length then some (-1, buf)
  else match drvfsOpts with
    | none | some [] => some (0, buf)
    | some opts => appendDrvfsOptions buf bufsize opts

/-- `drvfs_build_options`: what it returns and leaves in the buffer, unless it accesses memory
outside of the buffer. -/
def drvfsBuildOptionsIn (buf : Option Bytes) (bufsize : UInt64) (source stdOptions : Bytes)
    (drvfsOpts : Option Bytes) (featureFlags : UInt32) (elevated : Bool) : Option (Int × Bytes) :=
  match buf with
  | none => some (-1, [])
  | some buf =>
    if bufsize = 0 then some (-1, buf)
    else do
      let buf ← store buf 0 [0]
      let buf ← printInto buf 0 bufsize.toNat (transportOptions featureFlags elevated)
      let buf ← appendStandard buf bufsize stdOptions
      appendAname buf bufsize source drvfsOpts

/-! ## What is in the buffer -/

variable {buf text : Bytes} {bufsize : UInt64}

theorem toNat_sub_ofNat (cur : Nat) (h : cur ≤ bufsize.toNat) :
    (bufsize - UInt64.ofNat cur).toNat = bufsize.toNat - cur := by
  have hlt := bufsize.toNat_lt_size
  have hcur : (UInt64.ofNat cur).toNat = cur := UInt64.toNat_ofNat_of_lt' (by omega)
  rw [UInt64.toNat_sub_of_le _ _ (by rw [UInt64.le_iff_toNat_le, hcur]; exact h), hcur]

theorem appendPrinted_spec (h : HoldsText buf text) (hsize : buf.length = bufsize.toNat) {more : Bytes}
    (hnul : 0 ∉ more) :
    ∃ buf', appendPrinted buf bufsize more = some (buf', buf.length - text.length) ∧
      buf'.length = buf.length ∧ HoldsText buf' (text ++ more.take (buf.length - text.length - 1)) := by
  have hlt := h.length_lt
  obtain ⟨buf', hprint, hlen, hholds⟩ := h.printInto hnul
  refine ⟨buf', ?_, hlen, hholds⟩
  rw [appendPrinted, h.strlen_eq]
  simp only [Option.bind_eq_bind, Option.bind_some]
  rw [toNat_sub_ofNat _ (by omega), ← hsize, hprint]
  rfl

theorem copyOptions_spec {rest : Bytes} (opts : Bytes) (hsize : (text ++ rest).length = bufsize.toNat)
    (htwo : 2 ≤ bufsize.toNat) :
    copyOptions bufsize (text ++ rest) text.length opts =
      some (text.length + ((opts.map separatorOption).take (bufsize.toNat - 2 - text.length)).length,
        text ++ (opts.map separatorOption).take (bufsize.toNat - 2 - text.length) ++
          rest.drop ((opts.map separatorOption).take (bufsize.toNat - 2 - text.length)).length) := by
  have hsub : (bufsize - 2).toNat = bufsize.toNat - 2 := toNat_sub_ofNat 2 htwo
  induction opts generalizing text rest with
  | nil => simp [copyOptions]
  | cons c opts ih =>
    rw [copyOptions, hsub]
    by_cases hroom : text.length < bufsize.toNat - 2
    · rw [List.length_append] at hsize
      obtain ⟨k, hk⟩ : ∃ k, bufsize.toNat - 2 - text.length = k + 1 :=
        ⟨bufsize.toNat - 2 - text.length - 1, by omega⟩
      have hnext : bufsize.toNat - 2 - (text ++ [separatorOption c]).length = k := by
        rw [List.length_append, List.length_singleton]
        omega
      have hone : [separatorOption c].length ≤ rest.length := by
        rw [List.length_singleton]
        omega
      have hstore := store_append text hone
      rw [if_pos hroom, hstore, Option.bind_eq_bind, Option.bind_some]
      have hmore : (text ++ [separatorOption c] ++ rest.drop 1).length = bufsize.toNat := by
        simp
        omega
      have hrec := ih hmore
      rw [hnext, List.length_append, List.length_singleton] at hrec
      rw [List.length_singleton, hrec, hk, List.map_cons, List.take_succ_cons, List.length_cons]
      congr 2
      · omega
      · rw [List.drop_drop, Nat.add_comm 1]
        simp
    · rw [if_neg hroom, Nat.sub_eq_zero_of_le (by omega)]
      simp

theorem separatorOption_ne_nul {c : UInt8} (h : c ≠ 0) : separatorOption c ≠ 0 := by
  unfold separatorOption
  split
  · decide
  · exact h

theorem nul_not_mem_options {opts : Bytes} (h : 0 ∉ opts) : 0 ∉ opts.map separatorOption := by
  rw [List.mem_map]
  rintro ⟨c, hc, hzero⟩
  refine separatorOption_ne_nul ?_ hzero
  rintro rfl
  exact h hc

/-- The options of the drive fail when there is no room for the `;`, and are cut otherwise. -/
theorem appendDrvfsOptions_spec (h : HoldsText buf text) (hsize : buf.length = bufsize.toNat)
    {opts : Bytes} (hnul : 0 ∉ opts) :
    ∃ ret buf', appendDrvfsOptions buf bufsize opts = some (ret, buf') ∧ buf'.length = buf.length ∧
      (buf.length ≤ text.length + 1 → ret = -1) ∧
      (text.length + 1 < buf.length → ret = 0 ∧ HoldsText buf'
        (text ++ [59] ++ (opts.map separatorOption).take (buf.length - 2 - (text.length + 1)))) := by
  have hlt := h.length_lt
  have hsemicolon : (0 : UInt8) ∉ [59] := by decide
  obtain ⟨buf₁, hprint, hlen, hholds⟩ := appendPrinted_spec h hsize hsemicolon
  rw [appendDrvfsOptions, hprint]
  simp only [Option.bind_eq_bind, Option.bind_some]
  by_cases hroom : buf.length - text.length ≤ 1
  · rw [if_pos hroom]
    exact ⟨-1, buf₁, rfl, hlen, fun _ => rfl, fun hfits => absurd hroom (by omega)⟩
  · rw [if_neg hroom]
    rw [List.take_of_length_le (by rw [List.length_singleton]; omega)] at hholds
    have hcur := hholds.strlen_eq
    obtain ⟨htext, rest, hrest⟩ := hholds
    have hbuf₁ : (text ++ [59] ++ 0 :: rest).length = bufsize.toNat := by rw [← hrest, hlen, hsize]
    have hcopy := copyOptions_spec opts hbuf₁ (by omega)
    rw [hcur, Option.bind_some, hrest, hcopy]
    simp only [Option.bind_some]
    rw [← hsize, List.length_append, List.length_singleton]
    rw [← hsize, List.length_append, List.length_append, List.length_singleton, List.length_cons] at hbuf₁
    have hcopied : ((opts.map separatorOption).take (buf.length - 2 - (text.length + 1))).length ≤
        rest.length := (List.length_take_le _ _).trans (by omega)
    generalize hkept : (opts.map separatorOption).take (buf.length - 2 - (text.length + 1)) = kept at hcopied ⊢
    have hlast : [(0 : UInt8)].length ≤ ((0 :: rest).drop kept.length).length := by
      simp
      omega
    have hstore := store_append (text ++ [59] ++ kept) hlast
    rw [List.length_append, List.length_append, List.length_singleton] at hstore
    rw [hstore, Option.bind_some]
    refine ⟨0, _, rfl, ?_, fun hfull => absurd hroom (by omega), fun _ => ⟨rfl, ?_, ?_⟩⟩
    · rw [length_of_store hstore]
      simp
      omega
    · refine nul_not_mem_append htext fun hmem => nul_not_mem_options hnul ?_
      rw [← hkept] at hmem
      exact List.mem_of_mem_take hmem
    · exact ⟨_, by rw [List.append_assoc (text ++ [59] ++ kept), List.singleton_append]⟩

/-! ## The whole text -/

def standardOptions (stdOptions : Bytes) : Bytes :=
  if stdOptions = [] then [] else stdOptions ++ [44]

/-- The text in front of the options of the drive. -/
def mountOptions (source stdOptions : Bytes) (featureFlags : UInt32) (elevated : Bool) : Bytes :=
  transportOptions featureFlags elevated ++ standardOptions stdOptions ++ anameOption source

/-- The options of the drive, each behind a `;`. -/
def drvfsOptions (opts : Bytes) : Bytes := if opts = [] then [] else 59 :: opts.map separatorOption

theorem nul_not_mem_transportOptions (featureFlags : UInt32) (elevated : Bool) :
    0 ∉ transportOptions featureFlags elevated := by
  unfold transportOptions
  split
  · cases elevated <;> decide
  · decide

theorem nul_not_mem_anameOption {source : Bytes} (h : 0 ∉ source) : 0 ∉ anameOption source :=
  nul_not_mem_append (by decide) h

/-- The buffer holds as much of a text as it can. -/
def HoldsStart (buf text : Bytes) : Prop := HoldsText buf (text.take (buf.length - 1))

theorem appendStandard_spec (h : HoldsStart buf text) (hsize : buf.length = bufsize.toNat)
    (stdOptions : CStr) :
    ∃ buf', appendStandard buf bufsize stdOptions.val = some buf' ∧ buf'.length = buf.length ∧
      HoldsStart buf' (text ++ standardOptions stdOptions.val) := by
  rw [appendStandard, standardOptions]
  by_cases hnone : stdOptions.val = []
  · rw [if_pos hnone, if_pos hnone, List.append_nil]
    exact ⟨buf, rfl, rfl, h⟩
  · have hnul : (0 : UInt8) ∉ stdOptions.val ++ [44] := nul_not_mem_append stdOptions.property (by decide)
    obtain ⟨buf', hprint, hlen, hholds⟩ := appendPrinted_spec h hsize hnul
    rw [if_neg hnone, if_neg hnone, hprint]
    refine ⟨buf', rfl, hlen, ?_⟩
    rwa [Nat.sub_right_comm, take_append_take, ← hlen] at hholds

variable (source stdOptions : CStr) (drvfsOpts : Option CStr) (featureFlags : UInt32) (elevated : Bool)

/-- The options in a buffer of `size` bytes behind a text: `ret`, and what the buffer holds when
that is no failure. -/
def OptionsBuilt (size : Nat) (text : Bytes) (ret : Int) (buf' : Bytes) : Prop :=
  if size ≤ (text ++ anameOption source.val).length ∨ 2 ^ 31 ≤ (anameOption source.val).length then
    ret = -1
  else if orEmpty drvfsOpts = [] then ret = 0 ∧ HoldsText buf' (text ++ anameOption source.val)
  else if size ≤ (text ++ anameOption source.val).length + 1 then ret = -1
  else ret = 0 ∧ HoldsText buf' (text ++ anameOption source.val ++ [59] ++
    ((orEmpty drvfsOpts).map separatorOption).take
      (size - 2 - ((text ++ anameOption source.val).length + 1)))

theorem appendAname_spec (h : HoldsStart buf text) (hsize : buf.length = bufsize.toNat) :
    ∃ ret buf', appendAname buf bufsize source.val (drvfsOpts.map Subtype.val) = some (ret, buf') ∧
      buf'.length = buf.length ∧ OptionsBuilt source drvfsOpts buf.length text ret buf' := by
  obtain ⟨buf₁, hprint, hlen, hholds⟩ :=
    appendPrinted_spec h hsize (nul_not_mem_anameOption source.property)
  rw [Nat.sub_right_comm, take_append_take] at hholds
  have hcut : printfResult (anameOption source.val) < 0 ∨
      buf.length - (text.take (buf.length - 1)).length ≤ (anameOption source.val).length ↔
      buf.length ≤ (text ++ anameOption source.val).length ∨ 2 ^ 31 ≤ (anameOption source.val).length := by
    have hpos : (anameOption source.val).length = 17 + source.val.length := by
      rw [anameOption, List.length_append]
      rfl
    rw [printfResult_neg_iff, List.length_take, List.length_append]
    omega
  rw [appendAname, hprint]
  simp only [Option.bind_eq_bind, Option.bind_some]
  by_cases hfail : buf.length ≤ (text ++ anameOption source.val).length ∨
      2 ^ 31 ≤ (anameOption source.val).length
  · refine ⟨-1, buf₁, if_pos (hcut.mpr hfail), hlen, ?_⟩
    rw [OptionsBuilt, if_pos hfail]
  · rw [if_neg (hcut.not.mpr hfail)]
    rw [List.take_of_length_le (by omega)] at hholds
    rcases drvfsOpts with _ | ⟨_ | ⟨c, opts⟩, hnul⟩
    · refine ⟨0, buf₁, rfl, hlen, ?_⟩
      rw [OptionsBuilt, if_neg hfail]
      exact ⟨rfl, hholds⟩
    · refine ⟨0, buf₁, rfl, hlen, ?_⟩
      rw [OptionsBuilt, if_neg hfail]
      exact ⟨rfl, hholds⟩
    · obtain ⟨ret, buf', happend, hlen', hfull, hfits⟩ :=
        appendDrvfsOptions_spec hholds (hlen.trans hsize) hnul
      rw [hlen] at hlen' hfull hfits
      refine ⟨ret, buf', happend, hlen', ?_⟩
      have hsome : orEmpty (some ⟨c :: opts, hnul⟩) ≠ [] := List.cons_ne_nil c opts
      rw [OptionsBuilt, if_neg hfail, if_neg hsome]
      by_cases hone : buf.length ≤ (text ++ anameOption source.val).length + 1
      · rw [if_pos hone]
        exact hfull hone
      · rw [if_neg hone]
        exact hfits (by omega)

theorem drvfsBuildOptionsIn_eq (hsize : buf.length = bufsize.toNat) :
    ∃ ret buf', drvfsBuildOptionsIn (some buf) bufsize source.val stdOptions.val
        (drvfsOpts.map Subtype.val) featureFlags elevated = some (ret, buf') ∧
      buf'.length = buf.length ∧ OptionsBuilt source drvfsOpts buf.length
        (transportOptions featureFlags elevated ++ standardOptions stdOptions.val) ret buf' := by
  rw [drvfsBuildOptionsIn]
  by_cases hzero : bufsize = 0
  · refine ⟨-1, buf, if_pos hzero, rfl, ?_⟩
    have hnone : buf.length = 0 := by
      rw [hsize, hzero]
      rfl
    rw [OptionsBuilt, if_pos (Or.inl (by omega))]
  · have hpos : 0 < bufsize.toNat := by
      rw [Nat.pos_iff_ne_zero, Ne, ← UInt64.toNat_zero, UInt64.toNat_inj]
      exact hzero
    have hfirst : 0 + [(0 : UInt8)].length ≤ buf.length := by
      rw [List.length_singleton]
      omega
    have hstore := store_eq hfirst
    have hlen₀ := length_of_store hstore
    rw [if_neg hzero, hstore, Option.bind_eq_bind, Option.bind_some]
    generalize buf.take 0 ++ [0] ++ buf.drop (0 + [(0 : UInt8)].length) = buf₀ at hlen₀
    have hpos₀ : 0 < buf₀.length := by omega
    obtain ⟨buf₁, hprint, hlen₁, hholds₁⟩ := holdsText_printInto hpos₀
      (nul_not_mem_transportOptions featureFlags elevated)
    rw [hlen₀, hsize] at hprint
    rw [← hlen₁] at hholds₁
    rw [hlen₀] at hlen₁
    obtain ⟨buf₂, hstd, hlen₂, hholds₂⟩ :=
      appendStandard_spec hholds₁ (hlen₁.trans hsize) stdOptions
    rw [hlen₁] at hlen₂
    obtain ⟨ret, buf', haname, hlen', hbuilt⟩ :=
      appendAname_spec source drvfsOpts hholds₂ (hlen₂.trans hsize)
    rw [hlen₂] at hlen' hbuilt
    rw [hprint, Option.bind_some, hstd, Option.bind_some]
    exact ⟨ret, buf', haname, hlen', hbuilt⟩

/-! ## Complete options -/

def allOptions : Bytes :=
  mountOptions source.val stdOptions.val featureFlags elevated ++ drvfsOptions (orEmpty drvfsOpts)

/-- Nothing outside of the buffer is accessed, and it holds all options on success. -/
def BuildsOptions (buf : Bytes) (bufsize : UInt64) : Prop :=
  ∃ ret buf', drvfsBuildOptionsIn (some buf) bufsize source.val stdOptions.val
      (drvfsOpts.map Subtype.val) featureFlags elevated = some (ret, buf') ∧
    buf'.length = buf.length ∧ (ret = 0 ∨ ret = -1) ∧
    (ret = 0 → HoldsText buf' (allOptions source stdOptions drvfsOpts featureFlags elevated))

/-- There are no options for the drive, or no room for the text in front of them and a `;`, or room
for the whole text and one more character; a path that `snprintf` cannot count is a failure. -/
def OptionsFit (size : Nat) : Prop :=
  let text := mountOptions source.val stdOptions.val featureFlags elevated
  orEmpty drvfsOpts = [] ∨ size ≤ text.length + 1 ∨ 2 ^ 31 ≤ (anameOption source.val).length ∨
    (allOptions source stdOptions drvfsOpts featureFlags elevated).length + 2 ≤ size

variable {source stdOptions drvfsOpts featureFlags elevated} in
theorem buildsOptions_iff {ret : Int} {buf' : Bytes}
    (hrun : drvfsBuildOptionsIn (some buf) bufsize source.val stdOptions.val (drvfsOpts.map Subtype.val)
      featureFlags elevated = some (ret, buf')) (hlen : buf'.length = buf.length) :
    BuildsOptions source stdOptions drvfsOpts featureFlags elevated buf bufsize ↔
      (ret = 0 ∨ ret = -1) ∧
        (ret = 0 → HoldsText buf' (allOptions source stdOptions drvfsOpts featureFlags elevated)) := by
  constructor
  · rintro ⟨ret', buf'', hrun', -, hret, hholds⟩
    obtain ⟨rfl, rfl⟩ := Prod.mk.inj (Option.some.inj (hrun.symm.trans hrun'))
    exact ⟨hret, hholds⟩
  · rintro ⟨hret, hholds⟩
    exact ⟨ret, buf', hrun, hlen, hret, hholds⟩

variable {source stdOptions drvfsOpts featureFlags elevated} in
theorem holdsText_allOptions_iff {buf' : Bytes} {size : Nat} (hsome : orEmpty drvfsOpts ≠ [])
    (hroom : (mountOptions source.val stdOptions.val featureFlags elevated).length + 1 < size)
    (hheld : HoldsText buf' (mountOptions source.val stdOptions.val featureFlags elevated ++ [59] ++
      ((orEmpty drvfsOpts).map separatorOption).take
        (size - 2 - ((mountOptions source.val stdOptions.val featureFlags elevated).length + 1)))) :
    HoldsText buf' (allOptions source stdOptions drvfsOpts featureFlags elevated) ↔
      (allOptions source stdOptions drvfsOpts featureFlags elevated).length + 2 ≤ size := by
  have hall : allOptions source stdOptions drvfsOpts featureFlags elevated =
      mountOptions source.val stdOptions.val featureFlags elevated ++ [59] ++
        (orEmpty drvfsOpts).map separatorOption := by
    rw [allOptions, drvfsOptions, if_neg hsome, List.append_assoc, List.singleton_append]
  have hpos := List.length_pos_of_ne_nil hsome
  have hlength : (allOptions source stdOptions drvfsOpts featureFlags elevated).length =
      (mountOptions source.val stdOptions.val featureFlags elevated).length + 1 +
        (orEmpty drvfsOpts).length := by
    rw [hall, List.length_append, List.length_append, List.length_singleton, List.length_map]
  constructor
  · -- the text that is held is the whole text, so nothing of it was cut
    intro hholds
    have heq := congrArg List.length (hholds.unique hheld)
    rw [hlength, List.length_append, List.length_append, List.length_singleton, List.length_take,
      List.length_map] at heq
    omega
  · intro hfits
    rw [List.take_of_length_le (by rw [List.length_map]; omega)] at hheld
    rw [hall]
    exact hheld

theorem drvfsBuildOptionsIn_complete_iff (buf : Bytes) (bufsize : UInt64)
    (hsize : buf.length = bufsize.toNat) :
    BuildsOptions source stdOptions drvfsOpts featureFlags elevated buf bufsize ↔
      OptionsFit source stdOptions drvfsOpts featureFlags elevated buf.length := by
  obtain ⟨ret, buf', hrun, hlen, hbuilt⟩ :=
    drvfsBuildOptionsIn_eq source stdOptions drvfsOpts featureFlags elevated hsize
  have hfailed : ret = -1 → (ret = 0 ∨ ret = -1) ∧
      (ret = 0 → HoldsText buf' (allOptions source stdOptions drvfsOpts featureFlags elevated)) :=
    fun hret => ⟨Or.inr hret, fun hzero => absurd (hret.symm.trans hzero) (by decide)⟩
  have hsplit : transportOptions featureFlags elevated ++ standardOptions stdOptions.val ++
      anameOption source.val = mountOptions source.val stdOptions.val featureFlags elevated := rfl
  unfold OptionsBuilt at hbuilt
  rw [hsplit] at hbuilt
  rw [buildsOptions_iff hrun hlen]
  unfold OptionsFit
  by_cases hcut : buf.length ≤ (mountOptions source.val stdOptions.val featureFlags elevated).length ∨
      2 ^ 31 ≤ (anameOption source.val).length
  · rw [if_pos hcut] at hbuilt
    refine iff_of_true (hfailed hbuilt) (Or.inr ?_)
    exact hcut.imp (fun h => Nat.le_succ_of_le h) Or.inl
  rw [if_neg hcut] at hbuilt
  by_cases hnone : orEmpty drvfsOpts = []
  · rw [if_pos hnone] at hbuilt
    refine iff_of_true ⟨Or.inl hbuilt.1, fun _ => ?_⟩ (Or.inl hnone)
    rw [allOptions, drvfsOptions, if_pos hnone, List.append_nil]
    exact hbuilt.2
  rw [if_neg hnone] at hbuilt
  by_cases hone : buf.length ≤ (mountOptions source.val stdOptions.val featureFlags elevated).length + 1
  · rw [if_pos hone] at hbuilt
    exact iff_of_true (hfailed hbuilt) (Or.inr (Or.inl hone))
  rw [if_neg hone] at hbuilt
  obtain ⟨hret, hheld⟩ := hbuilt
  have hfits := holdsText_allOptions_iff hnone (Nat.lt_of_not_le hone) hheld
  constructor
  · rintro ⟨-, hholds⟩
    exact Or.inr (Or.inr (Or.inr (hfits.mp (hholds hret))))
  · rintro (h | h | h | h)
    · exact absurd h hnone
    · exact absurd h hone
    · exact absurd (Or.inr h) hcut
    · exact ⟨Or.inl hret, fun _ => hfits.mpr h⟩

theorem drvfsBuildOptionsIn_complete_sixty :
    BuildsOptions ⟨ascii "C:\\", by decide⟩ ⟨[], by decide⟩ (some ⟨ascii "metadata", by decide⟩) 0 false
        (List.replicate 62 0) 62 ↔
      OptionsFit ⟨ascii "C:\\", by decide⟩ ⟨[], by decide⟩ (some ⟨ascii "metadata", by decide⟩) 0
        false 62 :=
  drvfsBuildOptionsIn_complete_iff _ _ _ _ _ (List.replicate 62 0) 62 rfl

/-- The option `metadata` is cut, and the buffer is reported as complete. -/
theorem drvfsBuildOptionsIn_incomplete :
    ¬ ∀ (source stdOptions : CStr) (drvfsOpts : Option CStr) (featureFlags : UInt32) (elevated : Bool)
      (buf : Bytes) (bufsize : UInt64), buf.length = bufsize.toNat →
      BuildsOptions source stdOptions drvfsOpts featureFlags elevated buf bufsize := by
  intro h
  obtain ⟨ret, buf', hrun, -, -, hholds⟩ := h ⟨ascii "C:\\", by decide⟩ ⟨[], by decide⟩
    (some ⟨ascii "metadata", by decide⟩) 0 false (List.replicate 56 0) 56 rfl
  have hcut : (drvfsBuildOptionsIn (some (List.replicate 56 0)) 56 (ascii "C:\\") []
      (some (ascii "metadata")) 0 false).map (fun out => (out.1, out.2.takeWhile (· ≠ 0))) =
      some (0, ascii "msize=65536,trans=fd,cache=mmap,aname=drvfs;path=C:\\;m") := by decide
  change drvfsBuildOptionsIn (some (List.replicate 56 0)) 56 (ascii "C:\\") []
    (some (ascii "metadata")) 0 false = _ at hrun
  rw [hrun, Option.map_some, Option.some_inj, Prod.mk.injEq] at hcut
  have htext := (hholds hcut.1).takeWhile_eq
  rw [hcut.2] at htext
  exact absurd htext (by decide)

/-! ## The buffer of a mount -/

theorem drvfsBuildOptions_eq :
    drvfsBuildOptions source.val stdOptions.val (drvfsOpts.map Subtype.val) featureFlags elevated =
      let text := mountOptions source.val stdOptions.val featureFlags elevated
      if 1024 ≤ text.length then none
      else if orEmpty drvfsOpts = [] then some text
      else if 1024 ≤ text.length + 1 then none
      else some (text ++ [59] ++
        ((orEmpty drvfsOpts).map separatorOption).take (1022 - (text.length + 1))) := by
  have htransport : (if featureFlags &&& 0x01 ≠ 0 then
      ascii "msize=262144,trans=virtio," ++ ascii (if elevated then "drvfsa" else "drvfs") ++
        ascii ",cache=mmap,"
      else ascii "msize=65536,trans=fd,cache=mmap,") = transportOptions featureFlags elevated := by
    cases elevated <;> rfl
  have hshort : (transportOptions featureFlags elevated).length ≤ 1023 := by
    unfold transportOptions
    split
    · cases elevated <;> decide
    · decide
  have hstandard : (if stdOptions.val = [] then transportOptions featureFlags elevated
      else transportOptions featureFlags elevated ++
        snprintf (1024 - (transportOptions featureFlags elevated).length) (stdOptions.val ++ [44])) =
      (transportOptions featureFlags elevated ++ standardOptions stdOptions.val).take 1023 := by
    rw [standardOptions, List.take_append, List.take_of_length_le hshort, snprintf]
    split
    · rw [List.take_nil, List.append_nil]
    · rw [Nat.sub_right_comm]
  have hpos : (anameOption source.val).length = 17 + source.val.length := by
    rw [anameOption, List.length_append]
    rfl
  unfold drvfsBuildOptions
  simp only [htransport, hstandard]
  change (if 1024 - ((transportOptions featureFlags elevated ++ standardOptions stdOptions.val).take
    1023).length ≤ (anameOption source.val).length then none else _) = _
  by_cases hcut : 1024 ≤ (mountOptions source.val stdOptions.val featureFlags elevated).length
  · rw [if_pos hcut, if_pos]
    rw [mountOptions, List.length_append] at hcut
    rw [List.length_take]
    omega
  · have hall : (transportOptions featureFlags elevated ++ standardOptions stdOptions.val).take 1023 =
        transportOptions featureFlags elevated ++ standardOptions stdOptions.val := by
      rw [mountOptions, List.length_append] at hcut
      exact List.take_of_length_le (by omega)
    rw [if_neg hcut, hall, if_neg (by rw [mountOptions, List.length_append] at hcut; omega)]
    rcases drvfsOpts with _ | ⟨_ | ⟨c, opts⟩, hnul⟩
    · rfl
    · rfl
    · have hsome : orEmpty (some ⟨c :: opts, hnul⟩) ≠ [] := List.cons_ne_nil c opts
      rw [if_neg hsome]
      change (if 1024 - (mountOptions source.val stdOptions.val featureFlags elevated).length ≤ 1
        then none else _) = _
      by_cases hone : 1024 ≤ (mountOptions source.val stdOptions.val featureFlags elevated).length + 1
      · rw [if_pos hone, if_pos (by omega)]
      · rw [if_neg hone, if_neg (by omega)]
        rfl

/-- The options of `drvfs_mount_single` are those in its buffer of 1024 bytes. -/
theorem drvfsBuildOptions_eq_some_iff (hsize : buf.length = 1024) {text : Bytes} :
    drvfsBuildOptions source.val stdOptions.val (drvfsOpts.map Subtype.val) featureFlags elevated =
        some text ↔
      ∃ buf', drvfsBuildOptionsIn (some buf) 1024 source.val stdOptions.val
        (drvfsOpts.map Subtype.val) featureFlags elevated = some (0, buf') ∧ HoldsText buf' text := by
  have hsize' : buf.length = (1024 : UInt64).toNat := hsize
  obtain ⟨ret, buf', hrun, -, hbuilt⟩ := drvfsBuildOptionsIn_eq source stdOptions drvfsOpts
    featureFlags elevated hsize'
  have hret : (∃ buf'', drvfsBuildOptionsIn (some buf) 1024 source.val stdOptions.val
      (drvfsOpts.map Subtype.val) featureFlags elevated = some (0, buf'') ∧ HoldsText buf'' text) ↔
      ret = 0 ∧ HoldsText buf' text := by
    rw [hrun]
    constructor
    · rintro ⟨buf'', heq, hholds⟩
      obtain ⟨rfl, rfl⟩ := Prod.mk.inj (Option.some.inj heq)
      exact ⟨rfl, hholds⟩
    · rintro ⟨rfl, hholds⟩
      exact ⟨buf', rfl, hholds⟩
  have hheld : ∀ {built : Bytes}, HoldsText buf' built → (some built = some text ↔ HoldsText buf' text) := by
    intro built h
    rw [Option.some_inj]
    constructor
    · rintro rfl
      exact h
    · exact h.unique
  have hsplit : transportOptions featureFlags elevated ++ standardOptions stdOptions.val ++
      anameOption source.val = mountOptions source.val stdOptions.val featureFlags elevated := rfl
  unfold OptionsBuilt at hbuilt
  rw [hsplit, hsize] at hbuilt
  rw [hret, drvfsBuildOptions_eq]
  simp only
  have hfailed : ret = -1 → (none = some text ↔ ret = 0 ∧ HoldsText buf' text) := by
    rintro rfl
    exact iff_of_false (Option.some_ne_none text).symm fun h => absurd h.1 (by decide)
  have hlong : 2 ^ 31 ≤ (anameOption source.val).length →
      1024 ≤ (mountOptions source.val stdOptions.val featureFlags elevated).length := by
    intro h
    rw [mountOptions, List.length_append]
    omega
  by_cases hcut : 1024 ≤ (mountOptions source.val stdOptions.val featureFlags elevated).length
  · rw [if_pos (Or.inl hcut)] at hbuilt
    rw [if_pos hcut]
    exact hfailed hbuilt
  · rw [if_neg (fun h => hcut (h.elim id hlong))] at hbuilt
    rw [if_neg hcut]
    by_cases hnone : orEmpty drvfsOpts = []
    · rw [if_pos hnone] at hbuilt
      rw [if_pos hnone, hheld hbuilt.2]
      exact (and_iff_right hbuilt.1).symm
    · rw [if_neg hnone] at hbuilt
      rw [if_neg hnone]
      by_cases hone : 1024 ≤ (mountOptions source.val stdOptions.val featureFlags elevated).length + 1
      · rw [if_pos hone] at hbuilt
        rw [if_pos hone]
        exact hfailed hbuilt
      · rw [if_neg hone] at hbuilt
        rw [if_neg hone, hheld hbuilt.2]
        exact (and_iff_right hbuilt.1).symm

end WslFreeBSD.Hvinit
