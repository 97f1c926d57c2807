import WslFreeBSD.Gns.Commands

/-!
# Updates of a route

An update of a route deletes the old one and adds the new one. The delete of `gns_apply_route_change`
names the default route, whatever the destination of the update is, so an update of another route takes
the default route away and leaves the old route in its place (`update_iff`).
-/

namespace WslFreeBSD.Gns

open Lib

/-- The commands that a route change issues in an environment. -/
def issuedCommands (env : Program.Environment Op Op.Answer) (settings requestType : Bytes) :
    List Bytes :=
  ((gnsApplyRouteChange settings requestType).run env []).2.filterMap commandOf

/-- The destination of a command with this verb. -/
def RouteCommandFor (verb : String) (target cmd : Bytes) : Prop :=
  ascii "route " ++ ascii verb ++ ascii " " ++ target ++ ascii " " <+: cmd

def ChangesDefaultRoute (cmd : Bytes) : Prop :=
  RouteCommandFor "delete" (ascii "default") cmd ∨ RouteCommandFor "add" (ascii "default") cmd

def IsDefaultRoute (dest : Bytes) : Prop := dest = [] ∨ dest = ascii "0.0.0.0"

instance (dest : Bytes) : Decidable (IsDefaultRoute dest) :=
  inferInstanceAs (Decidable (dest = [] ∨ dest = ascii "0.0.0.0"))

/-- A destination as an argument of `route`. -/
def routeTarget (dest : Bytes) : Bytes := if IsDefaultRoute dest then ascii "default" else dest

/-- The commands leave the default route alone if it is not the one that is updated, and delete the old
route before they add a new one to the same destination. -/
structure UpdatesItsRoute (dest : Bytes) (cmds : List Bytes) : Prop where
  leavesDefault : ¬ IsDefaultRoute dest → ∀ cmd ∈ cmds, ¬ ChangesDefaultRoute cmd
  deletesFirst : ∀ before cmd behind, cmds = before ++ cmd :: behind →
    RouteCommandFor "add" (routeTarget dest) cmd →
      ∃ old ∈ before, RouteCommandFor "delete" (routeTarget dest) old

theorem commands_runAll (env : Program.Environment Op Op.Answer) (cmds : List Bytes)
    (t : HandlerTrace) :
    ((runAll cmds).run env t).2.filterMap commandOf = t.filterMap commandOf ++ cmds := by
  induction cmds generalizing t with
  | nil => exact (List.append_nil _).symm
  | cons cmd cmds ih =>
    have hrun : (runAll (cmd :: cmds)).run env t =
        (runAll cmds).run env (t ++ [⟨.system cmd, env t (.system cmd)⟩]) := rfl
    rw [hrun, ih, List.filterMap_append, List.append_assoc]
    rfl

theorem issuedCommands_eq (env : Program.Environment Op Op.Answer) (settings requestType : Bytes) :
    issuedCommands env settings requestType = routeCommands settings requestType :=
  (commands_runAll env (routeCommands settings requestType) []).trans (List.nil_append _)

theorem routeCommands_update {settings : Bytes} (h : stringField settings "NextHop" 64 ≠ []) :
    routeCommands settings (ascii "Update") =
      [quiet 256 [ascii "route delete default ", stringField settings "NextHop" 64],
        routeCommand "add" (stringField settings "DestinationPrefix" 80)
          (stringField settings "NextHop" 64)] := by
  unfold routeCommands
  dsimp only
  rw [if_neg (by decide), if_neg h, if_neg (by decide), if_pos (by decide)]

theorem prefix_snprintf {size : Nat} {s t : Bytes} (hs : s <+: t) (hlen : s.length ≤ size - 1) :
    s <+: snprintf size t := List.prefix_take_iff.mpr ⟨hs, hlen⟩

theorem deletes_default (nextHop : Bytes) :
    RouteCommandFor "delete" (ascii "default")
      (quiet 256 [ascii "route delete default ", nextHop]) := by
  have hwords : ascii "route " ++ ascii "delete" ++ ascii " " ++ ascii "default" ++ ascii " " =
      ascii "route delete default " := by
    decide
  have htext : [ascii "route delete default ", nextHop].flatten ++ ascii " 2>/dev/null" =
      ascii "route delete default " ++ ([nextHop].flatten ++ ascii " 2>/dev/null") := by
    rw [List.flatten_cons, List.append_assoc]
  unfold RouteCommandFor quiet
  rw [hwords, htext]
  exact prefix_snprintf (List.prefix_append _ _) (by decide)

theorem not_adds_of_deletes {target target' cmd : Bytes} (h : RouteCommandFor "delete" target cmd) :
    ¬ RouteCommandFor "add" target' cmd := by
  intro hadd
  have hdelete : ascii "route " ++ ascii "delete" ++ ascii " " = ascii "route d" ++ ascii "elete " := by
    decide
  have hverb : ascii "route " ++ ascii "add" ++ ascii " " = ascii "route a" ++ ascii "dd " := by decide
  unfold RouteCommandFor at h hadd
  rw [hdelete, List.append_assoc, List.append_assoc] at h
  rw [hverb, List.append_assoc, List.append_assoc] at hadd
  have hdel : ascii "route d" <+: cmd := (List.prefix_append _ _).trans h
  have hadd' : ascii "route a" <+: cmd := (List.prefix_append _ _).trans hadd
  have hlen : (ascii "route d").length = (ascii "route a").length := by decide
  have heq : ascii "route d" = ascii "route a" :=
    (List.prefix_of_prefix_length_le hdel hadd' hlen.le).eq_of_length hlen
  exact absurd heq (by decide)

theorem updatesItsRoute_nil (dest : Bytes) : UpdatesItsRoute dest [] where
  leavesDefault := by
    intro _ cmd hcmd
    cases hcmd
  deletesFirst := by
    intro before cmd behind heq
    exact absurd heq.symm (List.append_ne_nil_of_right_ne_nil _ (List.cons_ne_nil _ _))

/-- An update does to the routes what it should exactly if there is no next hop, so that it does
nothing, or if it is the default route that is updated. -/
theorem update_iff (env : Program.Environment Op Op.Answer) (settings : Bytes) :
    UpdatesItsRoute (stringField settings "DestinationPrefix" 80)
        (issuedCommands env settings (ascii "Update")) ↔
      stringField settings "NextHop" 64 = [] ∨
        IsDefaultRoute (stringField settings "DestinationPrefix" 80) := by
  rw [issuedCommands_eq]
  generalize hdest : stringField settings "DestinationPrefix" 80 = dest
  by_cases hhop : stringField settings "NextHop" 64 = []
  · have hnone : routeCommands settings (ascii "Update") = [] := by
      unfold routeCommands
      dsimp only
      rw [if_neg (by decide), if_pos hhop]
    rw [hnone]
    exact iff_of_true (updatesItsRoute_nil dest) (Or.inl hhop)
  · rw [routeCommands_update hhop, hdest]
    have hdel := deletes_default (stringField settings "NextHop" 64)
    constructor
    · intro h
      right
      by_contra hother
      exact h.leavesDefault hother _ List.mem_cons_self (Or.inl hdel)
    · intro h
      have hdefault := h.resolve_left hhop
      constructor
      · intro hother
        exact absurd hdefault hother
      · intro before cmd behind heq hadd
        rw [routeTarget, if_pos hdefault] at hadd ⊢
        cases before with
        | nil =>
          -- the first command is the delete
          obtain ⟨rfl, -⟩ := List.cons.inj heq
          exact absurd hadd (not_adds_of_deletes hdel)
        | cons old before =>
          obtain ⟨rfl, -⟩ := List.cons.inj heq
          exact ⟨_, List.mem_cons_self, hdel⟩

/-- A route to `10.0.0.0/8`. -/
def privateRoute : Bytes :=
  ascii "\x7b\"NextHop\":\"10.0.0.1\",\"DestinationPrefix\":\"10.0.0.0/8\"\x7d"

/-- Its update deletes the default route. -/
theorem update_deletes_default :
    ¬ ∀ (env : Program.Environment Op Op.Answer) (settings : Bytes),
      UpdatesItsRoute (stringField settings "DestinationPrefix" 80)
        (issuedCommands env settings (ascii "Update")) := by
  intro h
  have hupdate := h (fun _ e => failing e) privateRoute
  have hdest : ¬ IsDefaultRoute (stringField privateRoute "DestinationPrefix" 80) := by
    decide
  have hhop : stringField privateRoute "NextHop" 64 ≠ [] := by decide
  rw [issuedCommands_eq, routeCommands_update hhop] at hupdate
  exact hupdate.leavesDefault hdest _ List.mem_cons_self (Or.inl (deletes_default _))

end WslFreeBSD.Gns
