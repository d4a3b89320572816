import FogNet.Coordinator.Stability
import FogNet.System.Convergence
import FogNet.System.IndexRanges

namespace FogNetModel

open CentralizedCoordinator Kernel

/-- The area that the configurations constrain the mobility models to. -/
structure InArea (coord : Coord) : Prop where
  x : 0 ≤ coord.x ∧ coord.x ≤ 1000
  y : 0 ≤ coord.y ∧ coord.y ≤ 1000

def staysInArea (_ : Config) : Label → Prop
  | .move position => ∀ device, InArea (position device)
  | _ => True

def ContextSync.coord (ctx : ContextSync) : Coord := ⟨ctx.x, ctx.y⟩

/-- Hosts, stored reports and reports under way are all in the area. -/
structure AreaKept (config : Config) : Prop where
  hosts : ∀ device, InArea (config.state.position device)
  stored : ∀ saved ∈ config.state.participant, InArea saved.ctx.coord
  flying : ∀ ctx, .sync ctx ∈ config.pending → InArea ctx.coord

/-- The index beside an index, in pairs from 0. -/
def besideIndex (index : Nat) : Nat := if index % 2 = 0 then index + 1 else index - 1

def StaysInArea (moments : List Moment) : Prop :=
  ∀ moment ∈ moments, ∀ device, InArea (moment.met.position device)

/-- Every index with the one beside it, as far as there is a receiver there. -/
def crossedPairs (senders receivers : Nat) : List (Nat × Nat) :=
  (List.range senders).filterMap fun a =>
    if besideIndex a < receivers then some (a, besideIndex a) else none

example : crossedPairs 4 3 = [(0, 1), (1, 0), (3, 2)] := by decide

end FogNetModel

namespace FogNetProof.Runs

open FogNetModel FogNetModel.CentralizedCoordinator Kernel Matching Numeric FogNetProof.Names
  FogNetProof.Plans FogNetProof.Rounds

section Crossed

theorem besideIndex_ne (index : Nat) : besideIndex index ≠ index := by
  unfold besideIndex
  split <;> omega

theorem besideIndex_involutive (index : Nat) : besideIndex (besideIndex index) = index := by
  unfold besideIndex
  split <;> split <;> omega

theorem mem_crossedPairs {senders receivers : Nat} {pair : Nat × Nat} :
    pair ∈ crossedPairs senders receivers ↔
      pair.1 < senders ∧ pair.2 < receivers ∧ pair.2 = besideIndex pair.1 := by
  obtain ⟨a, b⟩ := pair
  simp only [crossedPairs, List.mem_filterMap, List.mem_range, Option.ite_none_right_eq_some,
    Option.some.injEq, Prod.mk.injEq]
  constructor
  · rintro ⟨sender, bound, fits, rfl, rfl⟩
    exact ⟨bound, fits, rfl⟩
  · rintro ⟨bound, fits, rfl⟩
    exact ⟨a, bound, fits, rfl, rfl⟩

theorem crossed_taken {senders receivers b : Nat} :
    b ∈ (crossedPairs senders receivers).map Prod.snd ↔ b < receivers ∧ besideIndex b < senders := by
  simp only [List.mem_map, mem_crossedPairs]
  constructor
  · rintro ⟨pair, ⟨bound, fits, beside⟩, rfl⟩
    rw [beside, besideIndex_involutive]
    exact ⟨beside ▸ fits, bound⟩
  · rintro ⟨fits, bound⟩
    exact ⟨(besideIndex b, b), ⟨bound, fits, (besideIndex_involutive b).symm⟩, rfl⟩

/-- The first index that is free and not the sender's own is the one beside it. -/
theorem find_beside {sender receivers : Nat} {taken : List Nat}
    (agree : ∀ b, b ∈ taken ↔ b < receivers ∧ besideIndex b < sender) :
    (List.range receivers).find? (fun b => Problem.differentHost sender b && b ∉ taken) =
      if besideIndex sender < receivers then some (besideIndex sender) else none := by
  have own := besideIndex_ne sender
  have back := besideIndex_involutive sender
  have blocked : ∀ b < receivers, b < besideIndex sender ∨ ¬ besideIndex sender < receivers →
      b = sender ∨ besideIndex b < sender := by
    intro b bound early
    simp only [besideIndex] at early ⊢
    split at early <;> split <;> omega
  have passed : ∀ b < receivers, b < besideIndex sender ∨ ¬ besideIndex sender < receivers →
      (!(Problem.differentHost sender b && b ∉ taken)) = true := by
    intro b bound early
    simp only [Problem.differentHost, agree, Bool.not_eq_true', Bool.and_eq_false_iff, bne_eq_false_iff_eq,
      decide_eq_false_iff_not, not_not]
    exact (blocked b bound early).imp Eq.symm fun below => ⟨bound, below⟩
  split
  · rename_i fits
    refine List.find?_range_eq_some.mpr ⟨?_, List.mem_range.mpr fits, fun b below =>
      passed b (Nat.lt_trans below fits) (Or.inl below)⟩
    simp only [Problem.differentHost, agree, back, Nat.lt_irrefl, and_false, not_false_eq_true, decide_true,
      Bool.and_true, bne_iff_ne, ne_eq]
    exact Ne.symm own
  · rename_i full
    exact List.find?_range_eq_none.mpr fun b bound => passed b bound (Or.inr full)

/-- First fit of hosts that all admit each other, save for the one of the same index. -/
theorem firstFit_crossed (senders receivers : Nat) :
    firstFit Problem.differentHost (List.range receivers) [] (List.range senders) =
      crossedPairs senders receivers := by
  induction senders with
  | zero => rfl
  | succ sender ih =>
    have agree : ∀ b, b ∈ ((crossedPairs sender receivers).map Prod.snd).reverse ++ [] ↔
        b < receivers ∧ besideIndex b < sender := by
      intro b
      rw [List.append_nil, List.mem_reverse, crossed_taken]
    rw [List.range_succ, firstFit_append, ih, firstFit, find_beside agree, crossedPairs, crossedPairs,
      List.range_succ, List.filterMap_append]
    by_cases fits : besideIndex sender < receivers <;> simp [firstFit, fits]

end Crossed

theorem area_close {left right : Coord} (isLeft : InArea left) (isRight : InArea right) :
    |left.x - right.x| ≤ 1000 ∧ |left.y - right.y| ≤ 1000 := by
  obtain ⟨⟨leftX, leftX'⟩, leftY, leftY'⟩ := isLeft
  obtain ⟨⟨rightX, rightX'⟩, rightY, rightY'⟩ := isRight
  constructor <;> rw [abs_le] <;> constructor <;> linarith

theorem areaKept_keep {before after : Config} (known : AreaKept before)
    (placed : after.state.position = before.state.position)
    (store : after.state.participant = before.state.participant)
    (flying : ∀ ctx, .sync ctx ∈ after.pending → .sync ctx ∈ before.pending) : AreaKept after where
  hosts := placed ▸ known.hosts
  stored := store ▸ known.stored
  flying := fun ctx waits => known.flying ctx (flying ctx waits)

theorem areaKept_effect {net : FogNetwork} {before after : Config} {label : Label} (known : AreaKept before)
    (permitted : staysInArea before label) (effect : Effect net before label after) : AreaKept after := by
  cases effect with
  | quiet => exact known
  | attempted => exact areaKept_keep known rfl rfl fun _ => id
  | gaveUp => exact areaKept_keep known rfl rfl fun _ => id
  | sent => exact areaKept_keep known rfl rfl (by simp)
  | @reported device choice held mobile =>
    refine ⟨known.hosts, known.stored, fun ctx waits => ?_⟩
    rcases Multiset.mem_add.mp waits with old | new
    · exact known.flying ctx old
    · cases Multiset.mem_singleton.mp new
      exact known.hosts device
  | unsolved => exact areaKept_keep known rfl rfl fun _ => id
  | planned => exact areaKept_keep known rfl rfl (by simp)
  | @stored ctx inFlight =>
    refine ⟨known.hosts, fun saved member => ?_, fun other waits => ?_⟩
    · rcases mem_setNamed member with rfl | old
      · exact known.flying ctx inFlight
      · exact known.stored saved old
    · exact known.flying other (Multiset.mem_of_mem_erase waits)
  | rewired => exact areaKept_keep known rfl rfl fun _ => Multiset.mem_of_mem_erase
  | received => exact areaKept_keep known rfl rfl fun _ => Multiset.mem_of_mem_erase
  | forwarded =>
    refine areaKept_keep known rfl rfl fun ctx waits => ?_
    rcases Multiset.mem_add.mp waits with old | new
    · exact Multiset.mem_of_mem_erase old
    · simp at new
  | moved => exact ⟨permitted, known.stored, known.flying⟩

theorem area_reach {left right : Coord} (isLeft : InArea left) (isRight : InArea right) :
    ¬ outOfReach left right := by
  obtain ⟨nearX, nearY⟩ := area_close isRight isLeft
  rintro (farX | farY)
  · exact absurd farX (not_lt.mpr nearX)
  · exact absurd farY (not_lt.mpr nearY)

theorem area_within {α β : Type} {senders : List α} {receivers : List β} {left : α → ℚ} {right : β → ℚ}
    {a b : Nat} (aBound : a < senders.length) (bBound : b < receivers.length)
    (close : ∀ sender ∈ senders, ∀ receiver ∈ receivers, |left sender - right receiver| ≤ 1000) :
    Problem.within (senders.map fun sender => truncate (left sender))
      (receivers.map fun receiver => truncate (right receiver)) a b = true := by
  have near : |left senders[a] - right receivers[b]| ≤ ((1000 : ℕ) : ℚ) := by
    exact_mod_cast close _ (List.getElem_mem aBound) _ (List.getElem_mem bBound)
  refine within_eq_true.mpr ⟨truncate (left senders[a]), truncate (right receivers[b]), by simp [aBound],
    by simp [bBound], ?_⟩
  exact_mod_cast truncate_close near

theorem area_directPlan {net : FogNetwork} {config : Config} (known : AreaKept config)
    (full : config.state.participant.length = net.numHosts) :
    (config.state.problem net).directPlan = crossedPairs net.numHosts (net.numFogHosts + net.numCloudHosts) := by
  have senders : (config.state.problem net).aHosts.length = net.numHosts := by
    simpa [State.problem, problem] using full
  have receivers : (config.state.problem net).bHosts.length = net.numFogHosts + net.numCloudHosts := by
    simp [State.problem, problem, bDevices_length]
  have admitted : ∀ a ∈ List.range net.numHosts, ∀ b ∈ List.range (net.numFogHosts + net.numCloudHosts),
      (config.state.problem net).satisfies a b = Problem.differentHost a b := by
    intro a aMember b bMember
    have aBound := full ▸ List.mem_range.mp aMember
    have bBound := bDevices_length net ▸ List.mem_range.mp bMember
    have close : ∀ saved ∈ config.state.participant, ∀ device ∈ bDevices net,
        |saved.ctx.coord.x - (config.state.position device).x| ≤ 1000 ∧
          |saved.ctx.coord.y - (config.state.position device).y| ≤ 1000 := fun saved stored device _ =>
      area_close (known.stored saved stored) (known.hosts device)
    have nearX : (config.state.problem net).nearbyX a b = true :=
      area_within aBound bBound fun saved stored device held => (close saved stored device held).1
    have nearY : (config.state.problem net).nearbyY a b = true :=
      area_within aBound bBound fun saved stored device held => (close saved stored device held).2
    rw [Problem.satisfies, nearX, nearY, Bool.true_and, Bool.true_and]
  rw [Problem.directPlan, senders, receivers, firstFit_congr admitted, firstFit_crossed]

theorem areaKept_run {net : FogNetwork} {position : Device → Coord} (inside : ∀ device, InArea (position device))
    {config : Config} (run : Run (Step net) staysInArea (Config.initial position) config) : AreaKept config := by
  have initially : AreaKept (Config.initial position) :=
    ⟨inside, by simp [Config.initial], by simp [Config.initial]⟩
  exact run_invariant AreaKept (fun _ _ _ known permitted effect =>
    areaKept_effect known permitted effect) run initially

/-- In the area of the shipped configurations no host is ever out of reach, and every full round plans
    the hosts' indices crosswise, whatever the positions. -/
theorem shared_area_plan {net : FogNetwork} {position : Device → Coord}
    (inside : ∀ device, InArea (position device)) {config : Config}
    (run : Run (Step net) staysInArea (Config.initial position) config) :
    (∀ left right, ¬ outOfReach (config.state.position left) (config.state.position right)) ∧
      (config.state.participant.length = net.numHosts → ∀ solutions,
        (config.state.problem net).Enumerated solutions → solutions.Pairwise Lexicographic →
          ∃ selection, select (config.state.problem net) solutions = .ok selection ∧
            selection.plan = (crossedPairs net.numHosts (net.numFogHosts + net.numCloudHosts)).map
              (config.state.problem net).names) := by
  have known := areaKept_run inside run
  have wellformed := run_wellformed run (wellformed_initial net position)
  refine ⟨fun left right => area_reach (known.hosts left) (known.hosts right),
    fun full solutions enumerated ordered => ?_⟩
  obtain ⟨selection, selected, _⟩ :=
    select_eq (sound_inRange (problem_aligned _ _ _) (enumerated_sound enumerated))
  refine ⟨selection, selected, ?_⟩
  rw [selected_firstFit wellformed.registered enumerated ordered selected, State.firstFitPlan,
    area_directPlan known full]

theorem moments_stay {moments : List Moment} (stays : StaysInArea moments) :
    ∀ label ∈ moments.flatMap Moment.labels, ∀ config, staysInArea config label := by
  intro label member config
  obtain ⟨moment, handled, isLabel⟩ := List.mem_flatMap.mp member
  rcases List.mem_cons.mp isLabel with rfl | isLabel
  · exact stays moment handled
  · obtain rfl := List.mem_singleton.mp isLabel
    cases moment.event <;> exact trivial

theorem stays_still {position : Device → Coord} (inside : ∀ device, InArea (position device))
    {moments : List Moment} (still : Still position moments) : StaysInArea moments := by
  intro moment member
  rw [still moment member]
  exact inside

theorem shared_area_plan_opening :
    ∃ config selection, Reachable (.ofSizes 1 1 1) config ∧
      select (config.state.problem (.ofSizes 1 1 1)) [(0, 1)] = .ok selection ∧
      selection.plan = [fullNames (⟨.mobileHost, 0⟩, ⟨.fogHost, 0⟩)] := by
  have shown : opened (fun run => decide (run.2.state.participant.length = 1 ∧
      satisfyingTable (run.2.state.problem (.ofSizes 1 1 1)) = [(0, 1)] ∧
      (crossedPairs 1 2).map (run.2.state.problem (.ofSizes 1 1 1)).names =
        [fullNames (⟨.mobileHost, 0⟩, ⟨.fogHost, 0⟩)])) = some true := by decide +kernel
  obtain ⟨moments, sim, run, still, _, checked⟩ := opening_run shown
  obtain ⟨full, table, crossed⟩ := of_decide_eq_true checked
  have inside : ∀ device : Device, InArea ⟨0, 0⟩ := fun _ => ⟨by decide +kernel, by decide +kernel⟩
  have enumerated : (sim.state.problem (.ofSizes 1 1 1)).Enumerated [(0, 1)] := fun a b =>
    table ▸ mem_table (problem_aligned _ _ _)
  have ordered : [(0, 1)].Pairwise Lexicographic := List.pairwise_singleton _ _
  have planned := (shared_area_plan inside ((run_labels run).run (moments_stay (stays_still inside still)))).2
  obtain ⟨selection, selected, plan⟩ := planned full [(0, 1)] enumerated ordered
  exact ⟨sim.config, selection, run_reachable run, selected, plan.trans crossed⟩

end FogNetProof.Runs
