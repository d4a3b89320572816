import FogNet.Coordinator.Selection
import FogNet.Links.Delivery
import Mathlib.Data.Set.List

namespace FogNetModel

/-- A sync message that a mobile host of the network can have sent. -/
def FogNetwork.Reports (net : FogNetwork) (ctx : ContextSync) : Prop :=
  ∃ device, net.Holds device ∧ device.Mobile ∧ ctx.device = device.getFullName

/-- The participant array holds at most one message of each mobile host, under the host's name. -/
structure Registered (net : FogNetwork) (participant : List SavedMsg) : Prop where
  named : ∀ saved ∈ participant, saved.name = saved.ctx.device
  reported : ∀ saved ∈ participant, net.Reports saved.ctx
  distinct : (participant.map SavedMsg.name).Nodup

end FogNetModel

namespace FogNetProof.Rounds

open FogNetModel FogNetModel.CentralizedCoordinator Kernel Matching Numeric FogNetProof.Names
  FogNetProof.Plans

theorem registered_nil (net : FogNetwork) : Registered net [] := by
  constructor <;> simp

theorem registered_handleSync {net : FogNetwork} {participant : List SavedMsg} {ctx : ContextSync}
    (registered : Registered net participant) (reports : net.Reports ctx) :
    Registered net (handleSync participant ctx) where
  named := by
    intro saved member
    rcases mem_setNamed member with rfl | old
    · rfl
    · exact registered.named saved old
  reported := by
    intro saved member
    rcases mem_setNamed member with rfl | old
    · exact reports
    · exact registered.reported saved old
  distinct := setNamed_nodup registered.distinct _

variable {net : FogNetwork} {participant : List SavedMsg} {position : Device → Coord}

theorem aHosts_eq (registered : Registered net participant) :
    (problem net participant position).aHosts = participant.map SavedMsg.name :=
  List.map_congr_left fun saved member => (registered.named saved member).symm

theorem aHosts_mobile (registered : Registered net participant) {name : List Char}
    (member : name ∈ (problem net participant position).aHosts) :
    ∃ device, net.Holds device ∧ device.Mobile ∧ name = device.getFullName := by
  obtain ⟨saved, stored, rfl⟩ := List.mem_map.mp member
  exact registered.reported saved stored

theorem bHosts_immobile {name : List Char}
    (member : name ∈ (problem net participant position).bHosts) :
    ∃ device, net.Holds device ∧ ¬ device.Mobile ∧ name = device.getFullName := by
  obtain ⟨device, held, rfl⟩ := List.mem_map.mp member
  exact ⟨device, (mem_bDevices.mp held).1, (mem_bDevices.mp held).2, rfl⟩

theorem problem_distinct (registered : Registered net participant) :
    (problem net participant position).Distinct := by
  refine List.nodup_append.mpr ⟨?_, (bDevices_nodup net).map getFullName_injective, ?_⟩
  · rw [aHosts_eq registered]
    exact registered.distinct
  · intro left inLeft right inRight same
    obtain ⟨sender, _, mobile, rfl⟩ := aHosts_mobile registered inLeft
    obtain ⟨receiver, _, immobile, rfl⟩ := bHosts_immobile inRight
    exact immobile (getFullName_injective same ▸ mobile)

theorem names_devices (registered : Registered net participant) {pair : Nat × Nat}
    (aBound : pair.1 < (problem net participant position).aHosts.length)
    (bBound : pair.2 < (problem net participant position).bHosts.length) :
    ∃ sender receiver, net.Holds sender ∧ sender.Mobile ∧ net.Holds receiver ∧ ¬ receiver.Mobile ∧
      (problem net participant position).names pair = fullNames (sender, receiver) := by
  obtain ⟨sender, senderHeld, mobile, senderName⟩ :=
    aHosts_mobile registered (List.mem_of_getElem? (getElem?_of_bound aBound))
  obtain ⟨receiver, receiverHeld, immobile, receiverName⟩ :=
    bHosts_immobile (List.mem_of_getElem? (getElem?_of_bound bBound))
  exact ⟨sender, receiver, senderHeld, mobile, receiverHeld, immobile,
    Prod.ext senderName receiverName⟩

section Indices

variable {a b : Nat} {saved : SavedMsg} {receiver : Device} (savedAt : participant[a]? = some saved)
  (receiverAt : (bDevices net)[b]? = some receiver)

include savedAt in
theorem stored_bound : a < (problem net participant position).aHosts.length := by
  simpa [problem] using (List.getElem?_eq_some_iff.mp savedAt).1

include receiverAt in
theorem device_bound : b < (problem net participant position).bHosts.length := by
  simpa [problem] using (List.getElem?_eq_some_iff.mp receiverAt).1

include savedAt in
theorem aName_stored : (problem net participant position).aName a = saved.ctx.device := by
  simp [Problem.aName, problem, savedAt]

include receiverAt in
theorem bName_device : (problem net participant position).bName b = receiver.getFullName := by
  simp [Problem.bName, problem, receiverAt]

include savedAt receiverAt in
theorem nearbyX_stored : (problem net participant position).nearbyX a b = true ↔
    |truncate saved.ctx.x - truncate (position receiver).x| ≤ 1000 := by
  simp [Problem.nearbyX, within_eq_true, problem, savedAt, receiverAt]

include savedAt receiverAt in
theorem nearbyY_stored : (problem net participant position).nearbyY a b = true ↔
    |truncate saved.ctx.y - truncate (position receiver).y| ≤ 1000 := by
  simp [Problem.nearbyY, within_eq_true, problem, savedAt, receiverAt]

include savedAt receiverAt in
theorem satisfies_stored :
    (problem net participant position).satisfies a b = true ↔
      |truncate saved.ctx.x - truncate (position receiver).x| ≤ 1000 ∧
      |truncate saved.ctx.y - truncate (position receiver).y| ≤ 1000 ∧ a ≠ b := by
  rw [satisfies_eq_true, nearbyX_stored savedAt receiverAt, nearbyY_stored savedAt receiverAt]

end Indices

/-- A pair of a plan comes from a stored report and a host that cannot move, which are close. -/
theorem planned_close {solutions : List (Nat × Nat)}
    (sound : (problem net participant position).Sound solutions) {edge : List Char × List Char}
    (planned : edge ∈ greedy [] (solutions.map (problem net participant position).names)) :
    ∃ saved ∈ participant, ∃ receiver, edge = (saved.ctx.device, receiver.getFullName) ∧
      |truncate saved.ctx.x - truncate (position receiver).x| ≤ 1000 ∧
      |truncate saved.ctx.y - truncate (position receiver).y| ≤ 1000 := by
  obtain ⟨⟨a, b⟩, offered, rfl⟩ := List.mem_map.mp ((greedy_sublist _ _).subset planned)
  have satisfied := sound (a, b) offered
  obtain ⟨aBound, bBound⟩ := satisfies_bounds (problem_aligned net participant position) satisfied
  rw [problem, List.length_map] at aBound bBound
  have savedAt := List.getElem?_eq_getElem aBound
  have receiverAt := List.getElem?_eq_getElem bBound
  obtain ⟨nearX, nearY, _⟩ := (satisfies_stored savedAt receiverAt).mp satisfied
  refine ⟨_, List.getElem_mem aBound, _, ?_, nearX, nearY⟩
  exact Prod.ext (aName_stored savedAt) (bName_device receiverAt)

theorem endpoints_fullNames (pairs : List (Device × Device)) :
    endpoints (pairs.map fullNames) = (endpoints pairs).map Device.getFullName := by
  induction pairs with
  | nil => rfl
  | cons pair pairs ih => simp [fullNames, ih]

/-- What a round selects is the written form of a plan for hosts of the network. -/
theorem selected_plan (registered : Registered net participant) (position : Device → Coord)
    {solutions : List (Nat × Nat)} (sound : (problem net participant position).Sound solutions)
    {selection : Selection} (selected : select (problem net participant position) solutions = .ok selection) :
    ∃ plan : Plan, selection.plan = plan.names ∧ selection.coordinationResultsStr = encode plan.names ∧
      net.Carries plan := by
  have inRange := sound_inRange (problem_aligned net participant position) sound
  obtain ⟨chosen, text⟩ := selected_eq inRange selected
  have matching : IsMatching selection.plan := by
    rw [chosen]
    exact greedy_isMatching _ (names_loopless (problem_distinct registered) inRange)
  have hosts : ∀ edge ∈ selection.plan, ∃ pair : Device × Device, fullNames pair = edge ∧
      net.Holds pair.1 ∧ pair.1.Mobile ∧ net.Holds pair.2 ∧ ¬ pair.2.Mobile := by
    intro edge member
    rw [chosen] at member
    obtain ⟨solution, offered, rfl⟩ := List.mem_map.mp ((greedy_sublist _ _).subset member)
    obtain ⟨sender, receiver, senderHeld, mobile, receiverHeld, immobile, named⟩ :=
      names_devices registered (inRange solution offered).1 (inRange solution offered).2
    exact ⟨(sender, receiver), named.symm, senderHeld, mobile, receiverHeld, immobile⟩
  obtain ⟨pairs, written⟩ : ∃ pairs : List (Device × Device), pairs.map fullNames = selection.plan := by
    rw [← Set.mem_range, Set.range_list_map]
    intro edge member
    obtain ⟨pair, named, _⟩ := hosts edge member
    exact ⟨pair, named⟩
  have known : ∀ pair ∈ pairs, net.Holds pair.1 ∧ pair.1.Mobile ∧ net.Holds pair.2 ∧ ¬ pair.2.Mobile := by
    intro pair member
    obtain ⟨other, named, facts⟩ := hosts (fullNames pair) (written ▸ List.mem_map_of_mem member)
    have same : other = pair := Prod.ext (getFullName_injective (congrArg Prod.fst named))
      (getFullName_injective (congrArg Prod.snd named))
    exact same ▸ facts
  have distinct : IsMatching pairs := by
    rw [IsMatching, ← written, endpoints_fullNames] at matching
    exact matching.of_map
  refine ⟨⟨pairs, fun pair member => (known pair member).2.1,
    fun pair member => (known pair member).2.2.2, distinct⟩, written.symm, ?_, ?_⟩
  · rw [text, ← written]
    rfl
  · exact fun pair member => ⟨(known pair member).1, (known pair member).2.2.1⟩

end FogNetProof.Rounds
