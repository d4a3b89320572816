import FogNet.Coordinator.Stability
import FogNet.System.Convergence

namespace FogNetModel

open CentralizedCoordinator Kernel

/-- Anything but the arrival of a report of one of the first `count` hosts of the store. -/
def sparesFirst (count : Nat) (config : Config) : Label → Prop
  | .deliver (.sync ctx) => ctx.device ∉ (config.state.participant.take count).map SavedMsg.name
  | _ => True

/-- The pairs of a plan that belong to the first `count` hosts of the store. -/
def State.pairsOfFirst (state : State) (count : Nat) (plan : List (List Char × List Char)) :
    List (List Char × List Char) :=
  plan.filter fun edge => ((state.participant.take count).map SavedMsg.name).contains edge.1

/-- Two states tell the same about the first `count` hosts of the store and about the hosts that
    cannot move. -/
structure SameFirst (count : Nat) (before after : State) : Prop where
  stored : count ≤ after.participant.length
  first : after.participant.take count = before.participant.take count
  fixed : ∀ device, ¬ device.Mobile → after.position device = before.position device

end FogNetModel

namespace FogNetProof.Runs

open FogNetModel FogNetModel.CentralizedCoordinator Kernel Matching Numeric FogNetProof.Names
  FogNetProof.Plans FogNetProof.Rounds

variable {net : FogNetwork} {count : Nat}

theorem range_split {count size : Nat} (bound : count ≤ size) :
    List.range size = List.range count ++ (List.range (size - count)).map (count + ·) := by
  rw [← List.range_add, Nat.add_sub_cancel' bound]

/-- Senders in front take their receivers as if nobody came behind them. -/
theorem directPlan_front {problem : Problem} (bound : count ≤ problem.aHosts.length) :
    problem.directPlan.filter (fun pair => pair.1 < count) =
      firstFit problem.satisfies (List.range problem.bHosts.length) [] (List.range count) := by
  rw [Problem.directPlan, range_split bound, firstFit_append, List.filter_append]
  have front : ∀ pair ∈ firstFit problem.satisfies (List.range problem.bHosts.length) [] (List.range count),
      pair.1 < count := fun pair chosen => List.mem_range.mp (mem_firstFit chosen).1
  have back : ∀ pair ∈ firstFit problem.satisfies (List.range problem.bHosts.length)
      (((firstFit problem.satisfies (List.range problem.bHosts.length) [] (List.range count)).map
        Prod.snd).reverse ++ []) ((List.range (problem.aHosts.length - count)).map (count + ·)),
      ¬ pair.1 < count := by
    intro pair chosen
    obtain ⟨offset, _, same⟩ := List.mem_map.mp (mem_firstFit chosen).1
    omega
  rw [List.filter_eq_self.mpr (by simpa using front), List.filter_eq_nil_iff.mpr (by simpa using back),
    List.append_nil]

theorem within_take {left other right : List ℤ} (same : left.take count = other.take count) {a b : Nat}
    (below : a < count) : Problem.within left right a b = Problem.within other right a b := by
  have read : left[a]? = other[a]? := by
    rw [← List.getElem?_take_of_lt below, same, List.getElem?_take_of_lt below]
  rw [Problem.within, Problem.within, read]

section Same

variable {before after : State} (same : SameFirst count before after)

include same

theorem same_bPositions : (bDevices net).map after.position = (bDevices net).map before.position :=
  List.map_congr_left fun device member => same.fixed device (mem_bDevices.mp member).2

theorem same_satisfies {a b : Nat} (below : a < count) :
    (after.problem net).satisfies a b = (before.problem net).satisfies a b := by
  have positions : (bDevices net).map after.position = (bDevices net).map before.position :=
    same_bPositions same
  have bX : (after.problem net).bHostsX = (before.problem net).bHostsX := by
    have mapped := congrArg (List.map fun coord : Coord => truncate coord.x) positions
    rw [List.map_map, List.map_map] at mapped
    exact mapped
  have bY : (after.problem net).bHostsY = (before.problem net).bHostsY := by
    have mapped := congrArg (List.map fun coord : Coord => truncate coord.y) positions
    rw [List.map_map, List.map_map] at mapped
    exact mapped
  have aX : (after.problem net).aHostsX.take count = (before.problem net).aHostsX.take count := by
    simp only [State.problem, problem, ← List.map_take, same.first]
  have aY : (after.problem net).aHostsY.take count = (before.problem net).aHostsY.take count := by
    simp only [State.problem, problem, ← List.map_take, same.first]
  rw [Problem.satisfies, Problem.satisfies, Problem.nearbyX, Problem.nearbyX, Problem.nearbyY,
    Problem.nearbyY, within_take aX below, within_take aY below, bX, bY]

theorem same_stored : count ≤ before.participant.length := by
  have lengths := congrArg List.length same.first
  rw [List.length_take, List.length_take] at lengths
  have bound := same.stored
  omega

theorem same_front : (after.problem net).directPlan.filter (fun pair => pair.1 < count) =
    (before.problem net).directPlan.filter fun pair => pair.1 < count := by
  have afterBound : count ≤ (after.problem net).aHosts.length := by simpa [State.problem, problem] using same.stored
  have beforeBound : count ≤ (before.problem net).aHosts.length := by
    simpa [State.problem, problem] using same_stored same
  rw [directPlan_front afterBound, directPlan_front beforeBound]
  apply firstFit_congr
  intro a isSender b _
  exact same_satisfies same (List.mem_range.mp isSender)

theorem same_names {pair : Nat × Nat} (below : pair.1 < count) :
    (after.problem net).names pair = (before.problem net).names pair := by
  have stored : after.participant[pair.1]? = before.participant[pair.1]? := by
    rw [← List.getElem?_take_of_lt below, same.first, List.getElem?_take_of_lt below]
  simp [Problem.names, edgeOf, Problem.aName, Problem.bName, State.problem, problem, stored]

end Same

theorem stored_name_iff {state : State} (registered : Registered net state.participant) {a : Nat}
    (bound : a < (state.problem net).aHosts.length) :
    (state.problem net).aName a ∈ (state.participant.take count).map SavedMsg.name ↔ a < count := by
  have names : (state.problem net).aHosts = state.participant.map SavedMsg.name := aHosts_eq registered
  have known : (state.participant.map SavedMsg.name)[a]? = some ((state.problem net).aName a) := by
    rw [← names]
    exact getElem?_of_bound bound
  rw [List.map_take]
  constructor
  · intro member
    obtain ⟨i, isIndex, read⟩ := List.mem_take_iff_getElem.mp member
    have sameIndex := (List.getElem?_inj (by omega) registered.distinct).mp
      ((List.getElem?_eq_getElem (by omega)).trans ((congrArg some read).trans known.symm))
    omega
  · intro below
    have read := (List.getElem?_take_of_lt below).trans known
    exact List.mem_of_getElem? read

theorem pairsOfFirst_eq {state : State} (registered : Registered net state.participant) :
    state.pairsOfFirst count (state.firstFitPlan net) =
      ((state.problem net).directPlan.filter fun pair => pair.1 < count).map (state.problem net).names := by
  rw [State.pairsOfFirst, State.firstFitPlan, List.filter_map]
  refine congrArg _ (List.filter_congr fun pair chosen => ?_)
  have bound := List.mem_range.mp (mem_firstFit chosen).1
  rw [Bool.eq_iff_iff, decide_eq_true_iff]
  exact List.contains_iff_mem.trans (stored_name_iff registered bound)

theorem sameFirst_effect {before : State} {config after : Config} {label : Label}
    (known : SameFirst count before config.state) (permitted : sparesFirst count config label)
    (effect : Effect net config label after) : SameFirst count before after.state := by
  cases effect with
  | @stored ctx inFlight =>
    refine ⟨?_, ?_, known.fixed⟩
    · have kept : config.state.participant.map SavedMsg.name <+:
          (handleSync config.state.participant ctx).map SavedMsg.name := setNamed_names_prefix _ _
      have longer := kept.length_le
      rw [List.length_map, List.length_map] at longer
      exact known.stored.trans longer
    · have same : (handleSync config.state.participant ctx).take count =
          config.state.participant.take count := setNamed_take known.stored permitted
      exact same.trans known.first
  | moved stationary =>
    exact ⟨known.stored, known.first, fun device immobile =>
      (stationary device immobile).trans (known.fixed device immobile)⟩
  | quiet => exact known
  | attempted => exact ⟨known.stored, known.first, known.fixed⟩
  | gaveUp => exact ⟨known.stored, known.first, known.fixed⟩
  | sent => exact ⟨known.stored, known.first, known.fixed⟩
  | reported => exact ⟨known.stored, known.first, known.fixed⟩
  | unsolved => exact ⟨known.stored, known.first, known.fixed⟩
  | planned => exact ⟨known.stored, known.first, known.fixed⟩
  | rewired => exact ⟨known.stored, known.first, known.fixed⟩
  | received => exact ⟨known.stored, known.first, known.fixed⟩
  | forwarded => exact ⟨known.stored, known.first, known.fixed⟩

/-- Whatever hosts behind them report and wherever they go, the first hosts of the store keep their
    pairs from one round to any later one. -/
theorem first_hosts_undisturbed {before after : Config} (reachable : Reachable net before)
    (stored : count ≤ before.state.participant.length)
    (run : Run (Step net) (sparesFirst count) before after) {early late : List (Nat × Nat)}
    (earlyEnumerated : (before.state.problem net).Enumerated early)
    (earlyOrdered : early.Pairwise Lexicographic)
    (lateEnumerated : (after.state.problem net).Enumerated late) (lateOrdered : late.Pairwise Lexicographic)
    {first last : Selection} (selectedFirst : select (before.state.problem net) early = .ok first)
    (selectedLast : select (after.state.problem net) late = .ok last) :
    before.state.pairsOfFirst count last.plan = before.state.pairsOfFirst count first.plan := by
  have initially : SameFirst count before.state before.state := ⟨stored, rfl, fun _ _ => rfl⟩
  have same : SameFirst count before.state after.state :=
    run_invariant (fun config => SameFirst count before.state config.state)
      (fun _ _ _ known permitted effect => sameFirst_effect known permitted effect) run initially
  have wellformed := reachable_wellformed reachable
  have registeredLast := (run_wellformed run wellformed).registered
  have registered := wellformed.registered
  have samePairs : before.state.pairsOfFirst count last.plan = after.state.pairsOfFirst count last.plan := by
    rw [State.pairsOfFirst, State.pairsOfFirst, same.first]
  rw [samePairs, selected_firstFit registered earlyEnumerated earlyOrdered selectedFirst,
    selected_firstFit registeredLast lateEnumerated lateOrdered selectedLast,
    pairsOfFirst_eq registered, pairsOfFirst_eq registeredLast, same_front same]
  apply List.map_congr_left
  intro pair chosen
  exact same_names same (of_decide_eq_true (List.mem_filter.mp chosen).2)

theorem selected_of_table {state : State} {solutions : List (Nat × Nat)}
    (table : satisfyingTable (state.problem net) = solutions) :
    (state.problem net).Enumerated solutions ∧ solutions.Pairwise Lexicographic ∧
      ∃ selection, select (state.problem net) solutions = .ok selection := by
  subst table
  have enumerated : (state.problem net).Enumerated (satisfyingTable (state.problem net)) := fun a b =>
    mem_table (problem_aligned _ _ _)
  obtain ⟨selection, selected, _⟩ :=
    select_eq (sound_inRange (problem_aligned _ _ _) (enumerated_sound enumerated))
  exact ⟨enumerated, table_lexicographic _, selection, selected⟩

/-- The mobile host has gone, but the store still holds its last report. -/
theorem first_hosts_undisturbed_away :
    ∃ before after first last, Reachable (.ofSizes 1 1 1) before ∧
      Run (Step (.ofSizes 1 1 1)) (sparesFirst 1) before after ∧
      outOfReach (after.state.position ⟨.mobileHost, 0⟩) (after.state.position ⟨.fogHost, 0⟩) ∧
      select (before.state.problem (.ofSizes 1 1 1)) [(0, 1)] = .ok first ∧
      select (after.state.problem (.ofSizes 1 1 1)) [(0, 1)] = .ok last ∧
      before.state.pairsOfFirst 1 last.plan = before.state.pairsOfFirst 1 first.plan := by
  let gone : Device → Coord := fun device => if device.Mobile then ⟨5000, 0⟩ else ⟨0, 0⟩
  have shown : opened (fun run => decide (run.2.state.participant.length = 1 ∧
      satisfyingTable (run.2.state.problem (.ofSizes 1 1 1)) = [(0, 1)] ∧
      satisfyingTable ({ run.2.state with position := gone }.problem (.ofSizes 1 1 1)) = [(0, 1)])) =
        some true := by decide +kernel
  obtain ⟨moments, sim, run, _, still, checked⟩ := opening_run shown
  obtain ⟨stored, early, late⟩ := of_decide_eq_true checked
  have reachable := run_reachable run
  let after : Config := { sim.config with state := { sim.config.state with position := gone } }
  have moved : Step (.ofSizes 1 1 1) sim.config (.move gone) after := by
    apply Step.move
    intro device immobile
    show (if device.Mobile then _ else _) = sim.state.position device
    rw [if_neg immobile, still]
  have spares : sparesFirst 1 sim.config (.move gone) := trivial
  have run : Run (Step (.ofSizes 1 1 1)) (sparesFirst 1) sim.config after :=
    Run.snoc Relation.ReflTransGen.refl spares moved
  obtain ⟨earlyEnumerated, earlyOrdered, first, selectedFirst⟩ := selected_of_table early
  obtain ⟨lateEnumerated, lateOrdered, last, selectedLast⟩ := selected_of_table late
  have far : outOfReach (gone ⟨.mobileHost, 0⟩) (gone ⟨.fogHost, 0⟩) := by decide +kernel
  exact ⟨sim.config, after, first, last, reachable, run, far, selectedFirst, selectedLast,
    first_hosts_undisturbed reachable stored.ge run earlyEnumerated earlyOrdered lateEnumerated lateOrdered
      selectedFirst selectedLast⟩

end FogNetProof.Runs
