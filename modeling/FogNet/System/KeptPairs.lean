import FogNet.System.IdlePairs
import FogNet.System.Steps

namespace FogNetModel

open Numeric

def KeepsLink (sender receiver : Device) (interval : Nat) (state : State) : Prop :=
  (Source.handleMessage sender interval state).state.gates = state.gates ∧
    (Source.handleMessage sender interval state).messages = [.job ⟨sender, receiver⟩]

/-- The whole parts of two coordinates leave room for what truncation drops. -/
def FractionsFit (sent received : ℚ) : Prop :=
  |truncate sent - truncate received| ≤ 998 ∨
    (|truncate sent - truncate received| = 999 ∧ widening sent received ≤ 1) ∨
    (|truncate sent - truncate received| = 1000 ∧ widening sent received ≤ 0)

open CentralizedCoordinator in
/-- A round has planned the pair and it is linked, and both hosts stand where the round saw them. -/
structure PlannedAndStill (net : FogNetwork) (history : List ContextSync) (position : Device → Coord)
    (solutions : List (Nat × Nat)) (saved : SavedMsg) (sender receiver : Device) (state : State) :
    Prop where
  reported : ∀ ctx ∈ history, net.Reports ctx
  sound : (problem net (stored history) position).Sound solutions
  planned : ∃ outcome, coordinate (problem net (stored history) position) solutions = .ok outcome ∧
    (sender.getFullName, receiver.getFullName) ∈ plannedPairs outcome
  member : saved ∈ stored history
  named : saved.ctx.device = sender.getFullName
  linked : state.gates.nextGate (.sourceOut sender) = some (.componentIn receiver)
  senderStays : state.position sender = ⟨saved.ctx.x, saved.ctx.y⟩
  receiverStays : state.position receiver = position receiver

end FogNetModel

namespace FogNetProof.Rounds

open FogNetModel FogNetModel.CentralizedCoordinator Kernel Matching Numeric FogNetProof.Names

theorem keepsLink_iff {sender receiver : Device} (mobile : sender.Mobile) {state : State}
    (linked : state.gates.nextGate (.sourceOut sender) = some (.componentIn receiver)) (interval : Nat) :
    KeepsLink sender receiver interval state ↔
      ¬ outOfReach (state.position sender) (state.position receiver) := by
  have named : sender.getName = HostKind.mobileHost.getName := getName_mobile.mpr mobile
  by_cases far : outOfReach (state.position sender) (state.position receiver)
  · simp [KeepsLink, Source.handleMessage, named, linked, InGate.device, far, Reaction.messages,
      Event.toMessage]
  · simp [KeepsLink, Source.handleMessage, named, linked, InGate.device, far, Reaction.messages,
      Event.toMessage, State.emit]

/-- The whole parts of a planned pair that stays where it was are close. -/
theorem still_close {net : FogNetwork} {history : List ContextSync} {position : Device → Coord}
    {solutions : List (Nat × Nat)} {saved : SavedMsg} {sender receiver : Device} {state : State}
    (still : PlannedAndStill net history position solutions saved sender receiver state) :
    |truncate saved.ctx.x - truncate (position receiver).x| ≤ 1000 ∧
      |truncate saved.ctx.y - truncate (position receiver).y| ≤ 1000 := by
  have registered := registered_stored still.reported
  obtain ⟨outcome, solved, planned⟩ := still.planned
  obtain ⟨reached, isReached, plan⟩ :=
    coordinate_eq (sound_inRange (problem_aligned net (stored history) position) still.sound)
  cases Except.ok.inj (isReached.symm.trans solved)
  rw [plan] at planned
  obtain ⟨other, isStored, device, names, close⟩ := planned_close still.sound planned
  have isReceiver : receiver = device := getFullName_injective (congrArg Prod.snd names)
  have isSaved : other = saved := by
    refine List.inj_on_of_nodup_map registered.distinct isStored still.member ?_
    rw [registered.named other isStored, registered.named saved still.member, still.named]
    exact (congrArg Prod.fst names).symm
  rw [isReceiver, ← isSaved]
  exact close

/-- A planned pair that stays where the round saw it is kept by its sender exactly when the dropped
    fractions fit on both axes. -/
theorem keeps_planned_link_iff {net : FogNetwork} {history : List ContextSync}
    {position : Device → Coord} {solutions : List (Nat × Nat)} {saved : SavedMsg}
    {sender receiver : Device} {state : State}
    (still : PlannedAndStill net history position solutions saved sender receiver state)
    (interval : Nat) :
    KeepsLink sender receiver interval state ↔
      FractionsFit saved.ctx.x (position receiver).x ∧ FractionsFit saved.ctx.y (position receiver).y := by
  obtain ⟨xClose, yClose⟩ := still_close still
  have mobile : sender.Mobile := by
    obtain ⟨device, _, mobile, isName⟩ := (registered_stored still.reported).reported saved still.member
    exact getFullName_injective (isName.symm.trans still.named) ▸ mobile
  rw [keepsLink_iff mobile still.linked, still.senderStays, still.receiverStays, outOfReach, not_or,
    not_lt, not_lt, abs_sub_comm, abs_sub_comm (position receiver).y]
  refine and_congr ?_ ?_
  · exact_mod_cast close_iff_of_truncate_close (n := 998) (by exact_mod_cast xClose)
  · exact_mod_cast close_iff_of_truncate_close (n := 998) (by exact_mod_cast yClose)

def fogAt (x : ℚ) (device : Device) : Coord :=
  match device.kind with
  | .mobileHost => ⟨0, 0⟩
  | .cloudHost => ⟨5000, 0⟩
  | .fogHost => ⟨x, 0⟩

def linkedAt (x : ℚ) : State where
  position := fogAt x
  participant := []
  listener := SignalListener.initial
  gates := Wires.single (.sourceOut ⟨.mobileHost, 0⟩) (.componentIn ⟨.fogHost, 0⟩)

theorem plannedAndStill_fogAt {x : ℚ}
    (sound : (problem (.ofSizes 1 1 1) (stored [⟨(Device.mk .mobileHost 0).getFullName, 0, 0⟩])
      (fogAt x)).Sound [(0, 1)]) :
    PlannedAndStill (.ofSizes 1 1 1) [⟨(Device.mk .mobileHost 0).getFullName, 0, 0⟩] (fogAt x) [(0, 1)]
      ⟨(Device.mk .mobileHost 0).getFullName, (Device.mk .mobileHost 0).getFullName, 0, 0⟩
      ⟨.mobileHost, 0⟩ ⟨.fogHost, 0⟩ (linkedAt x) where
  reported := by
    intro ctx member
    rw [List.mem_singleton.mp member]
    exact ⟨⟨.mobileHost, 0⟩, by decide, rfl, rfl⟩
  sound := sound
  planned := by
    obtain ⟨outcome, solved, plan⟩ := coordinate_eq (sound_inRange (problem_aligned _ _ _) sound)
    exact ⟨outcome, solved, plan ▸ List.mem_singleton.mpr rfl⟩
  member := List.mem_singleton.mpr rfl
  named := rfl
  linked := rfl
  senderStays := rfl
  receiverStays := rfl

theorem keeps_link_fogAt_1000 : KeepsLink ⟨.mobileHost, 0⟩ ⟨.fogHost, 0⟩ 0 (linkedAt 1000) := by
  have still := plannedAndStill_fogAt (x := 1000) (by decide +kernel)
  refine (keeps_planned_link_iff still 0).mpr ⟨Or.inr (Or.inr ⟨?_, ?_⟩), Or.inl ?_⟩ <;> decide +kernel

/-- At 1000.5 the coordinator sees a distance of 1000 and the sender one above it. -/
theorem drops_link_fogAt_2001_2 :
    ¬ ∀ (net : FogNetwork) (history : List ContextSync) (position : Device → Coord)
      (solutions : List (Nat × Nat)) (saved : SavedMsg) (sender receiver : Device) (state : State),
      PlannedAndStill net history position solutions saved sender receiver state →
        ∀ interval, KeepsLink sender receiver interval state := by
  intro always
  have kept := always _ _ _ _ _ _ _ _ (plannedAndStill_fogAt (x := 2001 / 2) (by decide +kernel)) 0
  have mobile : (Device.mk .mobileHost 0).Mobile := rfl
  have near := (keepsLink_iff mobile rfl 0).mp kept
  exact near (by decide +kernel)

end FogNetProof.Rounds
